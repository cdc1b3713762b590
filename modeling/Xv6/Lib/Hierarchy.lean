import Mathlib.Data.Set.Card
import Mathlib.Logic.Relation

/-! Directories that form a tree below a root, and how many names there are for what is in them. -/

/-- Directories, which are what has one above it, and what the names in them stand for. -/
@[ext]
structure Hierarchy (ι ν : Type) where
  root : ι
  above : ι → Option ι
  entry : ι → ν → Option ι

namespace Hierarchy
open Function Relation

variable {ι ν : Type} {h : Hierarchy ι ν} {d e i j : ι} {x y : ν}

/-- What is reached by names from the root. -/
def Reached (h : Hierarchy ι ν) : ι → Prop := ReflTransGen (fun d i => ∃ x, h.entry d x = some i) h.root

/-- Every directory but the root has one name, in the directory above it, and is reached from the root. -/
structure Sound (h : Hierarchy ι ν) : Prop where
  root : h.above h.root = some h.root
  named {d : ι} {x : ν} {i : ι} : h.entry d x = some i → h.above d ≠ none
  above {e : ι} {x : ν} {d : ι} : h.entry e x = some d → h.above d ≠ none → h.above d = some e ∧ d ≠ h.root
  once {e : ι} {x y : ν} {d : ι} : h.entry e x = some d → h.entry e y = some d → h.above d ≠ none → x = y
  found {d e : ι} : h.above d = some e → d ≠ h.root → ∃ x, h.entry e x = some d
  reached {d : ι} : h.above d ≠ none → h.Reached d
  dirs : {d | h.above d ≠ none}.Finite
  names : {p : ι × ν | h.entry p.1 p.2 ≠ none}.Finite

/-- The names that something has. -/
def places (h : Hierarchy ι ν) (i : ι) : Set (ι × ν) := {p | h.entry p.1 p.2 = some i}

/-- The directories right below something. -/
def below (h : Hierarchy ι ν) (i : ι) : Set ι := {d | h.above d = some i}

noncomputable def links (h : Hierarchy ι ν) (i : ι) : Nat := (h.places i).ncard + (h.below i).ncard

section Sound

theorem Sound.one_name (sound : h.Sound) (dir : h.above d ≠ none) (other : d ≠ h.root) :
    ∃! p : ι × ν, h.entry p.1 p.2 = some d := by
  obtain ⟨e, upward⟩ := Option.ne_none_iff_exists'.mp dir
  obtain ⟨x, here⟩ := sound.found upward other
  refine ⟨(e, x), here, fun p there => ?_⟩
  have first : p.1 = e := Option.some.inj ((sound.above there dir).1.symm.trans upward)
  have there : h.entry e p.2 = some d := first ▸ there
  exact Prod.ext first (sound.once there here dir)

theorem Sound.places_finite (sound : h.Sound) (i : ι) : (h.places i).Finite :=
  sound.names.subset fun p here none => by
    have some : h.entry p.1 p.2 = some i := here
    rw [none] at some
    cases some

theorem Sound.below_finite (sound : h.Sound) (i : ι) : (h.below i).Finite :=
  sound.dirs.subset fun d here none => by
    have some : h.above d = some i := here
    rw [none] at some
    cases some

theorem Sound.links_pos (sound : h.Sound) (here : h.entry d x = some i) : 0 < h.links i := by
  have some : 0 < (h.places i).ncard := (Set.ncard_pos (sound.places_finite i)).mpr ⟨(d, x), here⟩
  unfold links
  omega

/-- A directory has a name, but for the root, which is above itself. -/
theorem Sound.dir_links (sound : h.Sound) (dir : h.above d ≠ none) : 0 < h.links d := by
  by_cases top : d = h.root
  · have some : 0 < (h.below d).ncard := (Set.ncard_pos (sound.below_finite d)).mpr ⟨h.root, top ▸ sound.root⟩
    unfold links
    omega
  · obtain ⟨e, upward⟩ := Option.ne_none_iff_exists'.mp dir
    obtain ⟨x, here⟩ := sound.found upward top
    exact sound.links_pos here

theorem Sound.dir_above (sound : h.Sound) (upward : h.above d = some e) : h.above e ≠ none := by
  by_cases top : d = h.root
  · rw [top, sound.root] at upward
    rw [← Option.some.inj upward, sound.root]
    exact Option.some_ne_none _
  · obtain ⟨x, here⟩ := sound.found upward top
    exact sound.named here

/-- What has no links is neither a directory, nor has it a name, nor is it above a directory. -/
theorem Sound.unlinked (sound : h.Sound) (zero : h.links i = 0) :
    h.above i = none ∧ (∀ d x, h.entry d x ≠ some i) ∧ ∀ d, h.above d ≠ some i := by
  refine ⟨?_, fun d x here => ?_, fun d upward => ?_⟩
  · by_contra dir
    have some := sound.dir_links dir
    omega
  · have some := sound.links_pos here
    omega
  · have some := sound.dir_links (sound.dir_above upward)
    omega

/-- What is neither a directory nor has a name has no links. -/
theorem Sound.no_links (sound : h.Sound) (file : h.above i = none) (unnamed : ∀ d x, h.entry d x ≠ some i) :
    h.links i = 0 := by
  have names : h.places i = ∅ := Set.eq_empty_of_forall_notMem fun p here => unnamed p.1 p.2 here
  have under : h.below i = ∅ := Set.eq_empty_of_forall_notMem fun d upward => sound.dir_above upward file
  unfold links
  rw [names, under, Set.ncard_empty, Set.ncard_empty]

theorem Sound.above_ne (sound : h.Sound) (upward : h.above d = some e) (other : d ≠ h.root) : e ≠ d := by
  have way := sound.reached (upward ▸ Option.some_ne_none e)
  induction way generalizing e with
  | refl => exact absurd rfl other
  | @tail f d _ here ih =>
    obtain ⟨x, here⟩ := here
    obtain ⟨upward', -⟩ := sound.above here (upward ▸ Option.some_ne_none e)
    obtain rfl := Option.some.inj (upward'.symm.trans upward)
    rintro rfl
    exact ih upward other rfl

theorem Sound.entry_ne (sound : h.Sound) (here : h.entry d x = some i) : i ≠ d := by
  rintro rfl
  obtain ⟨upward, other⟩ := sound.above here (sound.named here)
  exact sound.above_ne upward other rfl

/-- An empty directory that is not the root has one link. -/
theorem Sound.empty_links (sound : h.Sound) (dir : h.above i ≠ none) (here : h.entry d x = some i)
    (empty : ∀ y, h.entry i y = none) :
    h.links i = 1 := by
  obtain ⟨upward, other⟩ := sound.above here dir
  have one : h.places i = {(d, x)} := by
    ext ⟨e, y⟩
    refine ⟨fun there => ?_, fun there => ?_⟩
    · have there : h.entry e y = some i := there
      obtain rfl := Option.some.inj ((sound.above there dir).1.symm.trans upward)
      rw [sound.once here there dir]
      rfl
    · obtain ⟨rfl, rfl⟩ := Prod.mk.inj there
      exact here
  have under : h.below i = ∅ := Set.eq_empty_of_forall_notMem fun e upward' => by
    have upward' : h.above e = some i := upward'
    have apart : e ≠ h.root := by
      rintro rfl
      exact other (Option.some.inj (upward'.symm.trans sound.root))
    obtain ⟨y, there⟩ := sound.found upward' apart
    rw [empty] at there
    cases there
  unfold links
  rw [one, under, Set.ncard_singleton, Set.ncard_empty]

end Sound

section Changes

variable [DecidableEq ι] [DecidableEq ν]

/-- A name is given to what is not a directory. -/
def link (h : Hierarchy ι ν) (d : ι) (x : ν) (i : ι) : Hierarchy ι ν :=
  { h with entry := update h.entry d (update (h.entry d) x (some i)) }

/-- A name is taken away. -/
def unlink (h : Hierarchy ι ν) (d : ι) (x : ν) : Hierarchy ι ν :=
  { h with entry := update h.entry d (update (h.entry d) x none) }

/-- A name is given to a new directory. -/
def mkdir (h : Hierarchy ι ν) (d : ι) (x : ν) (i : ι) : Hierarchy ι ν :=
  { h.link d x i with above := update h.above i (some d) }

/-- A directory loses its name. -/
def rmdir (h : Hierarchy ι ν) (d : ι) (x : ν) (i : ι) : Hierarchy ι ν :=
  { h.unlink d x with above := update h.above i none }

theorem link_entry (h : Hierarchy ι ν) (d : ι) (x : ν) (i : ι) (e : ι) (y : ν) :
    (h.link d x i).entry e y = if e = d ∧ y = x then some i else h.entry e y := by
  unfold link
  dsimp only
  by_cases here : e = d
  · rw [here, update_self]
    by_cases there : y = x
    · rw [there, update_self, if_pos ⟨rfl, rfl⟩]
    · rw [update_of_ne there, if_neg fun both => there both.2]
  · rw [update_of_ne here, if_neg fun both => here both.1]

theorem unlink_entry (h : Hierarchy ι ν) (d : ι) (x : ν) (e : ι) (y : ν) :
    (h.unlink d x).entry e y = if e = d ∧ y = x then none else h.entry e y := by
  unfold unlink
  dsimp only
  by_cases here : e = d
  · rw [here, update_self]
    by_cases there : y = x
    · rw [there, update_self, if_pos ⟨rfl, rfl⟩]
    · rw [update_of_ne there, if_neg fun both => there both.2]
  · rw [update_of_ne here, if_neg fun both => here both.1]

theorem link_entry_some (absent : h.entry d x = none) (here : h.entry e y = some j) :
    (h.link d x i).entry e y = some j := by
  rw [link_entry, if_neg, here]
  rintro ⟨rfl, rfl⟩
  rw [absent] at here
  cases here

theorem Reached.link (absent : h.entry d x = none) (way : h.Reached j) : (h.link d x i).Reached j :=
  way.lift id fun _ _ there => there.imp fun _ here => link_entry_some absent here

/-- What is reached by names is still reached without a name for something that has no names in it. -/
theorem Reached.unlink (here : h.entry d x = some i) (empty : ∀ y, h.entry i y = none)
    (way : h.Reached j) (other : j ≠ i) :
    (h.unlink d x).Reached j := by
  induction way with
  | refl => exact .refl
  | @tail e j _ there ih =>
    obtain ⟨y, there⟩ := there
    have full : e ≠ i := by
      rintro rfl
      rw [empty] at there
      cases there
    refine (ih full).tail ⟨y, ?_⟩
    rw [unlink_entry, if_neg, there]
    rintro ⟨rfl, rfl⟩
    exact other (Option.some.inj (there.symm.trans here))

/-! ### Names of what is not a directory -/

theorem Sound.link (sound : h.Sound) (dir : h.above d ≠ none) (absent : h.entry d x = none)
    (file : h.above i = none) :
    (h.link d x i).Sound where
  root := sound.root
  named {e y j} here := by
    rw [link_entry] at here
    split at here
    next same => exact same.1 ▸ dir
    next => exact sound.named here
  above {e y j} here dir' := by
    rw [link_entry] at here
    split at here
    next => exact absurd (Option.some.inj here ▸ file) dir'
    next => exact sound.above here dir'
  once {e y z j} here here' dir' := by
    rw [link_entry] at here here'
    split at here
    next => exact absurd (Option.some.inj here ▸ file) dir'
    next =>
      split at here'
      next => exact absurd (Option.some.inj here' ▸ file) dir'
      next => exact sound.once here here' dir'
  found upward other := (sound.found upward other).imp fun _ here => link_entry_some absent here
  reached dir' := (sound.reached dir').link absent
  dirs := sound.dirs
  names := (sound.names.insert (d, x)).subset fun p here => by
    by_cases same : p = (d, x)
    · exact .inl same
    · refine .inr fun none => here ?_
      rw [link_entry, if_neg fun both => same (Prod.ext both.1 both.2), none]

theorem link_places : (h.link d x i).places i = insert (d, x) (h.places i) := by
  ext ⟨e, y⟩
  show (h.link d x i).entry e y = some i ↔ (e, y) = (d, x) ∨ h.entry e y = some i
  rw [link_entry]
  by_cases same : e = d ∧ y = x
  · rw [if_pos same, same.1, same.2]
    exact iff_of_true rfl (.inl rfl)
  · rw [if_neg same]
    exact (or_iff_right fun both => same (Prod.mk.inj both)).symm

theorem link_places_other (absent : h.entry d x = none) (other : j ≠ i) :
    (h.link d x i).places j = h.places j := by
  ext ⟨e, y⟩
  show (h.link d x i).entry e y = some j ↔ h.entry e y = some j
  rw [link_entry]
  by_cases same : e = d ∧ y = x
  · rw [if_pos same, same.1, same.2, absent]
    exact iff_of_false (fun wrong => other (Option.some.inj wrong).symm) nofun
  · rw [if_neg same]

theorem Sound.link_count (sound : h.Sound) (absent : h.entry d x = none) :
    ((h.link d x i).places i).ncard = (h.places i).ncard + 1 := by
  rw [link_places, Set.ncard_insert_of_notMem _ (sound.places_finite i)]
  intro here
  have here : h.entry d x = some i := here
  rw [absent] at here
  cases here

theorem Sound.link_links (sound : h.Sound) (absent : h.entry d x = none) (j : ι) :
    (h.link d x i).links j = h.links j + if j = i then 1 else 0 := by
  have below : (h.link d x i).below j = h.below j := rfl
  unfold links
  rw [below]
  by_cases same : j = i
  · rw [same, if_pos rfl, sound.link_count absent]
    omega
  · rw [if_neg same, link_places_other absent same, Nat.add_zero]

theorem unlink_entry_some (here : (h.unlink d x).entry e y = some j) : h.entry e y = some j := by
  rw [unlink_entry] at here
  split at here
  next => cases here
  next => exact here

theorem unlink_places (here : h.entry d x = some i) (j : ι) :
    (h.unlink d x).places j = if j = i then h.places j \ {(d, x)} else h.places j := by
  ext ⟨e, y⟩
  have member : (e, y) ∈ (h.unlink d x).places j ↔ ¬(e = d ∧ y = x) ∧ h.entry e y = some j := by
    show (h.unlink d x).entry e y = some j ↔ _
    rw [unlink_entry]
    by_cases same : e = d ∧ y = x
    · rw [if_pos same]
      exact iff_of_false nofun fun wrong => wrong.1 same
    · rw [if_neg same]
      exact (and_iff_right same).symm
  rw [member]
  by_cases same : j = i
  · rw [if_pos same]
    show _ ↔ h.entry e y = some j ∧ (e, y) ∉ ({(d, x)} : Set _)
    rw [Set.mem_singleton_iff, Prod.mk.injEq, and_comm]
  · rw [if_neg same]
    refine ⟨fun both => both.2, fun there => ⟨?_, there⟩⟩
    rintro ⟨rfl, rfl⟩
    exact same (Option.some.inj (there.symm.trans here))

theorem Sound.unlink_count (sound : h.Sound) (here : h.entry d x = some i) :
    ((h.unlink d x).places i).ncard + 1 = (h.places i).ncard := by
  rw [unlink_places here, if_pos rfl]
  exact Set.ncard_sdiff_singleton_add_one (show (d, x) ∈ h.places i from here) (sound.places_finite i)

theorem Sound.unlink (sound : h.Sound) (here : h.entry d x = some i) (file : h.above i = none) :
    (h.unlink d x).Sound where
  root := sound.root
  named here := sound.named (unlink_entry_some here)
  above here := sound.above (unlink_entry_some here)
  once here here' := sound.once (unlink_entry_some here) (unlink_entry_some here')
  found {e f} upward other := (sound.found upward other).imp fun y there => by
    rw [unlink_entry, if_neg, there]
    rintro ⟨rfl, rfl⟩
    obtain rfl := Option.some.inj (there.symm.trans here)
    have upward : h.above e = some f := upward
    rw [file] at upward
    cases upward
  reached {e} dir := by
    refine (sound.reached dir).unlink here (fun y => ?_) fun same => dir (same ▸ file)
    by_contra some
    obtain ⟨j, there⟩ := Option.ne_none_iff_exists'.mp some
    exact sound.named there file
  dirs := sound.dirs
  names := sound.names.subset fun p some none => some (by
    rw [unlink_entry]
    split
    · rfl
    · exact none)

theorem Sound.unlink_links (sound : h.Sound) (here : h.entry d x = some i) (j : ι) :
    (h.unlink d x).links j + (if j = i then 1 else 0) = h.links j := by
  have below : (h.unlink d x).below j = h.below j := rfl
  unfold links
  rw [below]
  by_cases same : j = i
  · have count := sound.unlink_count here
    rw [same, if_pos rfl]
    omega
  · rw [if_neg same, unlink_places here, if_neg same, Nat.add_zero]

/-! ### Names of directories -/

theorem Sound.mkdir (sound : h.Sound) (dir : h.above d ≠ none) (absent : h.entry d x = none)
    (fresh : h.links i = 0) : (h.mkdir d x i).Sound := by
  obtain ⟨file, unnamed, -⟩ := sound.unlinked fresh
  have other {e : ι} (dir' : h.above e ≠ none) : e ≠ i := by
    rintro rfl
    exact dir' file
  have above {e : ι} (dir' : h.above e ≠ none) : (h.mkdir d x i).above e = h.above e :=
    update_of_ne (other dir') ..
  have self : (h.mkdir d x i).above i = some d := update_self ..
  have old {e : ι} (apart : e ≠ i) : (h.mkdir d x i).above e = h.above e := update_of_ne apart ..
  have top : h.root ≠ i := other (sound.root ▸ Option.some_ne_none _)
  have entry (e : ι) (y : ν) : (h.mkdir d x i).entry e y =
    if e = d ∧ y = x then some i else h.entry e y := link_entry h d x i e y
  refine ⟨(old top).trans sound.root, fun {e y j} here => ?_, fun {e y j} here dir' => ?_,
    fun {e y z j} here here' dir' => ?_,
    fun {j e} upward apart => ?_, fun {j} dir' => ?_, ?_, (sound.link dir absent file).names⟩
  · rw [entry] at here
    split at here
    next same => rwa [same.1, above dir]
    next =>
      have old := sound.named here
      rwa [above old]
  · rw [entry] at here
    split at here
    next same =>
      obtain rfl := Option.some.inj here
      rw [self, same.1]
      exact ⟨rfl, Ne.symm top⟩
    next =>
      have apart : j ≠ i := by
        rintro rfl
        exact unnamed e y here
      rw [old apart] at dir' ⊢
      exact sound.above here dir'
  · rw [entry] at here here'
    split at here
    next same =>
      split at here'
      next same' => exact same.2.trans same'.2.symm
      next =>
        rw [← Option.some.inj here] at here'
        exact absurd here' (unnamed e z)
    next =>
      split at here'
      next =>
        rw [← Option.some.inj here'] at here
        exact absurd here (unnamed e y)
      next =>
        have apart : j ≠ i := by
          rintro rfl
          exact unnamed e y here
        rw [old apart] at dir'
        exact sound.once here here' dir'
  · by_cases new : j = i
    · rw [new, self] at upward
      rw [new, ← Option.some.inj upward]
      exact ⟨x, by rw [entry, if_pos ⟨rfl, rfl⟩]⟩
    · rw [old new] at upward
      exact (sound.found upward apart).imp fun _ here => link_entry_some absent here
  · by_cases new : j = i
    · rw [new]
      exact ((sound.reached dir).link absent).tail ⟨x, by rw [link_entry, if_pos ⟨rfl, rfl⟩]⟩
    · rw [old new] at dir'
      exact (sound.reached dir').link absent
  · refine (sound.dirs.insert i).subset fun j dir' => ?_
    by_cases new : j = i
    · exact .inl new
    · exact .inr fun none => dir' ((old new).trans none)

theorem Sound.mkdir_links (sound : h.Sound) (absent : h.entry d x = none) (fresh : h.links i = 0) (j : ι) :
    (h.mkdir d x i).links j = h.links j + (if j = i then 1 else 0) + if j = d then 1 else 0 := by
  obtain ⟨file, -⟩ := sound.unlinked fresh
  have names : (h.mkdir d x i).places j = (h.link d x i).places j := rfl
  have linked := sound.link_links (i := i) absent j
  have below : (h.link d x i).below j = h.below j := rfl
  have now (e : ι) : e ∈ (h.mkdir d x i).below j ↔ e = i ∧ j = d ∨ e ∈ h.below j := by
    show update h.above i (some d) e = some j ↔ _
    by_cases new : e = i
    · rw [new, update_self, Option.some.injEq, or_iff_left, and_iff_right rfl, eq_comm]
      intro upward
      have upward : h.above i = some j := upward
      rw [file] at upward
      cases upward
    · rw [update_of_ne new, or_iff_right fun both => new both.1]
      rfl
  unfold links at linked ⊢
  rw [below] at linked
  rw [names]
  by_cases here : j = d
  · have more : (h.mkdir d x i).below j = insert i (h.below j) := by
      ext e
      rw [now, Set.mem_insert_iff, and_iff_left here]
    have unlisted : i ∉ h.below j := fun upward => by
      have upward : h.above i = some j := upward
      rw [file] at upward
      cases upward
    rw [more, Set.ncard_insert_of_notMem unlisted (sound.below_finite j), if_pos here]
    omega
  · have same : (h.mkdir d x i).below j = h.below j := by
      ext e
      rw [now, or_iff_right fun both => here both.2]
    rw [same, if_neg here]
    omega

theorem Sound.rmdir (sound : h.Sound) (here : h.entry d x = some i) (dir : h.above i ≠ none)
    (empty : ∀ y, h.entry i y = none) :
    (h.rmdir d x i).Sound := by
  obtain ⟨upward, other⟩ := sound.above here dir
  have self : (h.rmdir d x i).above i = none := update_self ..
  have old {e : ι} (apart : e ≠ i) : (h.rmdir d x i).above e = h.above e := update_of_ne apart ..
  have apart {e : ι} (dir' : (h.rmdir d x i).above e ≠ none) : e ≠ i := by
    rintro rfl
    exact dir' self
  have entry {e : ι} {y : ν} {j : ι} (there : (h.rmdir d x i).entry e y = some j) : h.entry e y = some j :=
    unlink_entry_some there
  refine ⟨(old (Ne.symm other)).trans sound.root, fun {e y j} there => ?_, fun {e y j} there dir' => ?_,
    fun {e y z j} there there' dir' => ?_,
    fun {e f} upward' top => ?_, fun {e} dir' => ?_, sound.dirs.subset fun e dir' none =>
    dir' ((old (apart dir')).trans none), ?_⟩
  · have before := entry there
    have new : e ≠ i := by
      rintro rfl
      rw [empty] at before
      cases before
    rw [old new]
    exact sound.named before
  · have new := apart dir'
    rw [old new] at dir' ⊢
    exact sound.above (entry there) dir'
  · rw [old (apart dir')] at dir'
    exact sound.once (entry there) (entry there') dir'
  · have new := apart (upward' ▸ Option.some_ne_none f)
    rw [old new] at upward'
    refine (sound.found upward' top).imp fun y there => ?_
    refine (unlink_entry h d x f y).trans ((if_neg ?_).trans there)
    rintro ⟨rfl, rfl⟩
    exact new (Option.some.inj (there.symm.trans here))
  · have new := apart dir'
    rw [old new] at dir'
    exact (sound.reached dir').unlink here empty new
  · refine sound.names.subset fun p some none => some ((unlink_entry h d x p.1 p.2).trans ?_)
    split
    · rfl
    · exact none

theorem Sound.rmdir_links (sound : h.Sound) (here : h.entry d x = some i) (dir : h.above i ≠ none) (j : ι) :
    (h.rmdir d x i).links j + (if j = i then 1 else 0) + (if j = d then 1 else 0) = h.links j := by
  obtain ⟨upward, other⟩ := sound.above here dir
  have names : (h.rmdir d x i).places j = (h.unlink d x).places j := rfl
  have unlinked := sound.unlink_links here j
  have below : (h.unlink d x).below j = h.below j := rfl
  have now (e : ι) : e ∈ (h.rmdir d x i).below j ↔ e ∈ h.below j ∧ e ≠ i := by
    show update h.above i none e = some j ↔ h.above e = some j ∧ e ≠ i
    by_cases new : e = i
    · rw [new, update_self]
      exact iff_of_false nofun fun both => both.2 rfl
    · rw [update_of_ne new, and_iff_left new]
  unfold links at unlinked ⊢
  rw [names]
  rw [below] at unlinked
  by_cases top : j = d
  · have less : (h.rmdir d x i).below j = h.below j \ {i} := by
      ext e
      rw [now, Set.mem_sdiff, Set.mem_singleton_iff]
    have one := Set.ncard_sdiff_singleton_add_one (show i ∈ h.below j from top ▸ upward)
      (sound.below_finite j)
    rw [less, if_pos top]
    omega
  · have same : (h.rmdir d x i).below j = h.below j := by
      ext e
      rw [now]
      refine and_iff_left_of_imp fun upward' => ?_
      rintro rfl
      exact top (Option.some.inj (Eq.trans (Eq.symm upward') upward))
    rw [same, if_neg top]
    omega

end Changes

end Hierarchy
