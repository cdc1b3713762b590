import Xv6.Ftable.Slots

namespace Xv6.Ftable
open Threads Function

/-- What a process has in its hands in the middle of a call: the transactions it is inside of, files it
has not filled in, ends of pipes and a page it is to close or free, a child it is making, references that
are in no descriptor (`extra`) and descriptors whose reference is still to come or already gone (`lack`). -/
structure Account where
  op : Nat := 0
  blank : List FileId := []
  hand : List (PageId × Bool) := []
  owns : Option PageId := none
  child : ProcId → Option (Fd → Option FileId) := fun _ => none
  extra : List FileId := []
  lack : List FileId := []

structure Balance (a : Account) (v : FtView) : Prop where
  running : v.running = true
  op : v.op = a.op
  blank : ∀ f, v.blank f = true ↔ f ∈ a.blank
  hand : ∀ k w, v.hand k w = true ↔ (k, w) ∈ a.hand
  owns : ∀ k, v.owns k = true ↔ a.owns = some k
  child : v.child = a.child
  refs : ∀ f, v.mine f + a.lack.count f = fds v.ofile f + a.extra.count f

variable {t : ProcId} {v : FtView} {a : Account} {f : FileId} {fd : Fd}

theorem balance_clean : Balance {} v ↔ v.Clean := by
  constructor
  · intro bal
    refine ⟨bal.running, fun f => by simpa using bal.refs f, fun f => ?_, fun k w => ?_, fun k => ?_, bal.op,
      fun q => by rw [bal.child]⟩
    · simpa using bal.blank f
    · simpa using bal.hand k w
    · simpa using bal.owns k
  · intro clean
    refine ⟨clean.running, clean.op, fun f => ?_, fun k w => ?_, fun k => ?_, funext clean.child, fun f => ?_⟩
    · simp [clean.blank]
    · simp [clean.hand]
    · simp [clean.owns]
    · simp [clean.refs]

namespace Balance

/-- A reference too many makes up for one too few. -/
theorem cancel {extra lack : List FileId} :
    Balance { a with extra := f :: extra, lack := f :: lack } v ↔ Balance { a with extra, lack } v := by
  have refs : (∀ g, v.mine g + (f :: lack).count g = fds v.ofile g + (f :: extra).count g) ↔
      ∀ g, v.mine g + lack.count g = fds v.ofile g + extra.count g := by
    refine forall_congr' fun g => ?_
    simp only [List.count_cons]
    omega
  constructor
  · exact fun bal => ⟨bal.running, bal.op, bal.blank, bal.hand, bal.owns, bal.child, refs.mp bal.refs⟩
  · exact fun bal => ⟨bal.running, bal.op, bal.blank, bal.hand, bal.owns, bal.child, refs.mpr bal.refs⟩

/-- Only the number of references matters, not their order. -/
theorem swap {f g : FileId} (bal : Balance { a with extra := [f, g] } v) :
    Balance { a with extra := [g, f] } v :=
  ⟨bal.running, bal.op, bal.blank, bal.hand, bal.owns, bal.child, fun h => by
    have := bal.refs h
    simp only [List.count_cons] at this ⊢
    omega⟩

/-- The process holds a reference that is not in its descriptors. -/
theorem mine_pos (bal : Balance a v) (extra : f ∈ a.extra) (lack : a.lack = []) : 0 < v.mine f := by
  have refs := bal.refs f
  have positive := List.count_pos_iff.mpr extra
  rw [lack, List.count_nil] at refs
  omega

end Balance

theorem fds_pos {ofile : Fd → Option FileId} (at' : ofile fd = some f) : 0 < fds ofile f := by
  have moved := fds_update ofile fd none f
  rw [if_pos at', if_neg (by simp)] at moved
  omega

/-- The process holds what is in its descriptors. -/
theorem FtView.Clean.mine_pos (clean : v.Clean) (at' : v.ofile fd = some f) : 0 < v.mine f := by
  rw [clean.refs]
  exact fds_pos at'

section Steps

theorem fileallocBalance_wp {Q : Option FileId → FtView → Prop} (bal : Balance a v) (full : Q none v)
    (found : ∀ f v', f ∉ a.blank → v'.ofile = v.ofile →
      Balance { a with blank := f :: a.blank, extra := f :: a.extra } v' → Q (some f) v') :
    wp ftMachine ftOutline t FtAct.filealloc.run Q v := by
  refine filealloc_wp bal.running full fun f none filled => found f _ ?_ rfl ⟨bal.running, bal.op,
    fun g => ?_, bal.hand,
    bal.owns, bal.child, fun g => ?_⟩
  · rw [← bal.blank, filled]
    simp
  · by_cases same : g = f
    · simp [same]
    · simp [same, bal.blank]
  · have := bal.refs g
    by_cases same : g = f
    · subst same
      rw [none] at this
      simp only [update_self, List.count_cons_self]
      omega
    · simp only [update_of_ne same, List.count_cons_of_ne (Ne.symm same)]
      exact this

theorem fdallocBalance_wp {Q : Option Fd → FtView → Prop} (bal : Balance a v) (full : Q none v)
    (found : ∀ fd v', v.ofile fd = none → v'.ofile = update v.ofile fd (some f) →
      Balance { a with lack := f :: a.lack } v' → Q (some fd) v') :
    wp ftMachine ftOutline t (FtAct.fdalloc f).run Q v := by
  refine fdalloc_wp bal.running full fun fd none => found fd _ none rfl ⟨bal.running, bal.op,
    bal.blank, bal.hand,
    bal.owns, bal.child, fun g => ?_⟩
  have moved := fds_update v.ofile fd (some f) g
  have := bal.refs g
  rw [none, if_neg (by simp)] at moved
  simp only [Option.some.injEq] at moved
  by_cases same : f = g
  · subst same
    simp only [if_true] at moved
    simp only [List.count_cons_self]
    omega
  · rw [if_neg same] at moved
    simp only [List.count_cons_of_ne same]
    omega

theorem clearBalance_wp {Q : Unit → FtView → Prop} (bal : Balance a v) (at' : v.ofile fd = some f)
    (post : ∀ v', v'.ofile = update v.ofile fd none → Balance { a with extra := f :: a.extra } v' → Q () v') :
    wp ftMachine ftOutline t (FtAct.clear fd).run Q v := by
  refine clear_wp bal.running (post _ rfl ⟨bal.running, bal.op, bal.blank, bal.hand, bal.owns,
    bal.child, fun g => ?_⟩)
  have moved := fds_update v.ofile fd none g
  have := bal.refs g
  rw [at', if_neg (c := none = some g) (by simp)] at moved
  simp only [Option.some.injEq] at moved
  by_cases same : f = g
  · subst same
    simp only [if_true] at moved
    simp only [List.count_cons_self]
    omega
  · rw [if_neg same] at moved
    simp only [List.count_cons_of_ne same]
    omega

theorem filedupBalance_wp {Q : Unit → FtView → Prop} (bal : Balance a v) (mine : 0 < v.mine f)
    (filled : f ∉ a.blank)
    (post : ∀ v', v'.ofile = v.ofile → Balance { a with extra := f :: a.extra } v' → Q () v') :
    wp ftMachine ftOutline t (FtAct.filedup f).run Q v := by
  refine filedup_wp bal.running mine ?_ (post _ rfl ⟨bal.running, bal.op, bal.blank, bal.hand,
    bal.owns, bal.child,
    fun g => ?_⟩)
  · rw [← Bool.not_eq_true, bal.blank]
    exact filled
  · have := bal.refs g
    by_cases same : g = f
    · subst same
      simp only [update_self, List.count_cons_self]
      omega
    · simp only [update_of_ne same, List.count_cons_of_ne (Ne.symm same)]
      exact this

/-- A call into the inode layer or to user memory. -/
theorem passBalance_wp {b : FtAct} {Q : b.Resp → FtView → Prop} (bal : Balance a v)
    (same : ∀ s c, ∃ answer, ftMachine t c b s = .ok answer s) (free : ∀ s, FtState.Owed t s b)
    (post : ∀ answer, Q answer v) : wp ftMachine ftOutline t b.run Q v :=
  pass_wp bal.running same free post

end Steps

/-! ## kernel/file.c and kernel/pipe.c -/

theorem pipeclose_wp {k : PageId} {w : Bool} (bal : Balance { a with hand := [(k, w)], owns := none } v) :
    wp ftMachine ftOutline t (pipeclose k w)
      (fun _ v' => Balance { a with hand := [], owns := none } v' ∧ v'.ofile = v.ofile) v := by
  have none : ∀ k' w', update v.hand k (update (v.hand k) w false) k' w' = true ↔
    (k', w') ∈ ([] : List (PageId × Bool)) := by
    intro k' w'
    by_cases atK : k' = k
    · subst atK
      by_cases atW : w' = w
      · simp [atW]
      · have := bal.hand k' w'
        simp only [List.mem_singleton, Prod.mk.injEq] at this
        simp [atW, this]
    · have := bal.hand k' w'
      simp only [List.mem_singleton, Prod.mk.injEq] at this
      simp [atK, this]
  refine wp_bind (closeEnd_wp bal.running ((bal.hand k w).mpr (by simp)) ?_ fun unowned => ?_)
  · exact ⟨⟨bal.running, bal.op, bal.blank, none, bal.owns, bal.child, bal.refs⟩, rfl⟩
  · refine kfree_wp bal.running (by simp) ⟨⟨bal.running, bal.op, bal.blank, none, fun k' => ?_,
      bal.child, bal.refs⟩, rfl⟩
    by_cases same : k' = k
    · simp [same]
    · have := bal.owns k'
      simpa [same] using this

/-- `fileclose` gives one reference back. Inside a transaction the file must not have been filled in. -/
theorem fileclose_wp {extra : List FileId}
    (bal : Balance { a with hand := [], owns := none, extra := f :: extra } v)
    (mine : 0 < v.mine f) (outside : a.op = 0 ∨ f ∈ a.blank) :
    wp ftMachine ftOutline t (fileclose f) (fun _ v' => Balance { a with
      blank := a.blank.filter (· ≠ f), hand := [], owns := none, extra } v' ∧ v'.ofile = v.ofile) v := by
  have refs : ∀ g, update v.mine f (v.mine f - 1) g + a.lack.count g = fds v.ofile g + extra.count g := by
    intro g
    have := bal.refs g
    by_cases same : g = f
    · subst same
      simp only [List.count_cons_self] at this
      rw [update_self]
      omega
    · simp only [List.count_cons_of_ne (Ne.symm same)] at this
      rw [update_of_ne same]
      exact this
  refine wp_bind (unref_wp bal.running mine (fun filled => ?_) fun ff untyped => ?_)
  · refine ⟨⟨bal.running, bal.op, fun g => ?_, bal.hand, bal.owns, bal.child, refs⟩, rfl⟩
    have notBlank : f ∉ a.blank := by
      have := bal.blank f
      simpa [filled] using this
    rw [bal.blank, List.mem_filter]
    refine ⟨fun member => ⟨member, ?_⟩, fun member => member.1⟩
    simp only [decide_eq_true_eq]
    rintro rfl
    exact notBlank member
  · have blank : ∀ g, update v.blank f false g = true ↔ g ∈ a.blank.filter (· ≠ f) := by
      intro g
      have := bal.blank g
      by_cases same : g = f
      · simp [same]
      · simp [same, this]
    -- A file with an inode is never closed inside a transaction.
    have inode : ∀ v', Balance { a with blank := a.blank.filter (· ≠ f), hand := [], owns := none, extra }
      v' →
        ff.type ≠ .none → v'.ofile = v.ofile →
        wp ftMachine ftOutline t (do
          FtAct.beginOp.run
          (FtAct.iput ff.ip).run
          FtAct.endOp.run) (fun _ v' => Balance { a with
            blank := a.blank.filter (· ≠ f), hand := [], owns := none, extra } v' ∧
            v'.ofile = v.ofile) v' := by
      intro v' bal' typed ofile
      have noOp : a.op = 0 := by
        rcases outside with noOp | member
        · exact noOp
        · exact absurd (untyped ((bal.blank f).mpr member)) typed
      refine wp_bind (beginOp_wp bal'.running (bal'.op.trans noOp) (wp_bind ?_))
      refine pass_wp bal'.running (fun s c => ⟨(), rfl⟩) (fun _ => trivial) fun _ => ?_
      exact endOp_wp bal'.running ⟨⟨bal'.running, noOp.symm, bal'.blank, bal'.hand, bal'.owns,
        bal'.child, bal'.refs⟩, ofile⟩
    cases type : ff.type with
    | none =>
      simp only [type, reduceCtorEq, if_false]
      exact ⟨⟨bal.running, bal.op, blank, bal.hand, bal.owns, bal.child, refs⟩, rfl⟩
    | pipe =>
      simp only [type, if_true]
      refine pipeclose_wp (a := { a with blank := a.blank.filter (· ≠ f), extra })
        ⟨bal.running, bal.op, blank, fun k w => ?_, bal.owns, bal.child, refs⟩
      have := bal.hand k w
      by_cases atK : k = ff.pipe
      · subst atK
        by_cases atW : w = ff.writable
        · simp [atW]
        · simpa [atW] using this
      · simpa [atK] using this
    | inode =>
      simp only [type, reduceCtorEq, if_false]
      exact inode _ ⟨bal.running, bal.op, blank, bal.hand, bal.owns, bal.child, refs⟩ (by rw [type]; simp) rfl
    | device =>
      simp only [type, reduceCtorEq, if_false]
      exact inode _ ⟨bal.running, bal.op, blank, bal.hand, bal.owns, bal.child, refs⟩ (by rw [type]; simp) rfl

/-- `fileclose` of a file that is in no descriptor, by a process that has nothing else to settle. -/
theorem fileclose_extra_wp {extra : List FileId}
    (bal : Balance { a with hand := [], owns := none, extra := f :: extra, lack := [] } v)
    (outside : a.op = 0 ∨ f ∈ a.blank) :
    wp ftMachine ftOutline t (fileclose f) (fun _ v' => Balance { a with
      blank := a.blank.filter (· ≠ f), hand := [], owns := none, extra, lack := [] } v') v :=
  wp_mono (fun _ _ done => done.1) (fileclose_wp (a := { a with lack := [] }) bal
    (bal.mine_pos (by simp) rfl) outside)

/-- What `pipealloc` leaves: nothing, or two filled-in files without descriptors. -/
def Allocated (r : Option (FileId × FileId)) (v : FtView) : Prop :=
  match r with
  | none => v.Clean
  | some (rf, wf) => Balance { extra := [rf, wf] } v

theorem pipealloc_wp (clean : v.Clean) : wp ftMachine ftOutline t pipealloc Allocated v := by
  refine wp_bind (fileallocBalance_wp (balance_clean.mpr clean) clean fun f0 v₁ _ _ bal => ?_)
  refine wp_bind (fileallocBalance_wp bal ?_ fun f1 v₂ fresh _ bal => ?_)
  · show wp ftMachine ftOutline t (do fileclose f0; return none) Allocated v₁
    refine wp_seq (fileclose_extra_wp (a := { blank := [f0] }) bal (.inl rfl)) fun _ v₂ bal => ?_
    exact balance_clean.mp (by simpa using bal)
  · have different : f1 ≠ f0 := by simpa using fresh
    refine wp_bind (kalloc_wp bal.running ?_ fun k unowned => ?_)
    · show wp ftMachine ftOutline t (do fileclose f0; fileclose f1; return none) Allocated v₂
      refine wp_seq (fileclose_extra_wp (a := { blank := [f1, f0] })
        (Balance.swap (a := { blank := [f1, f0] }) bal)
        (.inl rfl)) fun _ v₃ bal => ?_
      refine wp_seq (fileclose_extra_wp (a := { blank := [f1] }) (by simpa [different] using bal) (.inl rfl))
        fun _ v₄ bal => ?_
      exact balance_clean.mp (by simpa using bal)
    · refine wp_bind (initPipe_wp bal.running (by simp) ?_)
      refine wp_bind (setPipe_wp bal.running ((bal.blank f0).mpr (by simp)) (by simp) ?_)
      refine wp_bind (setPipe_wp bal.running ?_ (by simp) ?_)
      · simpa [different] using (bal.blank f1).mpr (by simp)
      · show Balance { extra := [f0, f1] } _
        refine Balance.swap (a := {}) (f := f1) (g := f0) ⟨bal.running, bal.op, fun g => ?_, fun k' w => ?_,
          fun k' => ?_, bal.child, bal.refs⟩
        · have := bal.blank g
          by_cases same1 : g = f1
          · simp [same1]
          · by_cases same0 : g = f0
            · simp [same0, different.symm]
            · simpa [same0, same1] using this
        · by_cases same : k' = k
          · subst same
            cases w <;> simp
          · have := bal.hand k' w
            simpa [same] using this
        · by_cases same : k' = k
          · simp [same]
          · have := bal.owns k'
            simpa [same] using this

/-! ## kernel/sysfile.c -/

/-- `argfd` returns a descriptor in use, and changes nothing. -/
theorem argfd_wp {n : Int} (clean : v.Clean) : wp ftMachine ftOutline t (argfd n)
    (fun r v' => v' = v ∧ ∀ fd f, r = some (fd, f) → v.ofile fd = some f) v := by
  unfold argfd
  split
  next inside =>
    refine wp_bind (ofile_wp clean.running ?_)
    cases at' : v.ofile ⟨n.toNat, by omega⟩ with
    | none => exact ⟨rfl, fun _ _ none => by cases none⟩
    | some f =>
      refine ⟨rfl, fun fd g eq => ?_⟩
      cases eq
      exact at'
  next => exact ⟨rfl, fun _ _ none => by cases none⟩

theorem sysDup_wp {n : Int} (clean : v.Clean) :
    wp ftMachine ftOutline t (sysDup n) (fun _ v => v.Clean) v := by
  refine wp_seq (argfd_wp clean) ?_
  rintro (_ | ⟨fd, f⟩) w ⟨rfl, found⟩
  · exact clean
  · have held := found fd f rfl
    refine wp_bind (fdallocBalance_wp (balance_clean.mpr clean) clean fun fd' v₁ empty ofile bal => ?_)
    refine wp_bind (filedupBalance_wp bal ?_ (by simp) fun v₂ _ bal => ?_)
    · -- The old descriptor still counts.
      have different : fd ≠ fd' := by
        rintro rfl
        rw [held] at empty
        cases empty
      have moved := fds_update w.ofile fd' (some f) f
      have refs := bal.refs f
      have old := fds_pos held
      rw [empty, if_neg (by simp), if_pos rfl, ← ofile] at moved
      simp only [List.count_cons_self, List.count_nil] at refs
      omega
    · exact balance_clean.mp ((Balance.cancel (a := {})).mp bal)

theorem sysClose_wp {n : Int} (clean : v.Clean) :
    wp ftMachine ftOutline t (sysClose n) (fun _ v => v.Clean) v := by
  refine wp_seq (argfd_wp clean) ?_
  rintro (_ | ⟨fd, f⟩) _ ⟨rfl, found⟩
  · exact clean
  · refine wp_bind (clearBalance_wp (balance_clean.mpr clean) (found fd f rfl) fun v₁ _ bal => ?_)
    refine wp_seq (fileclose_extra_wp (a := {}) bal (.inl rfl)) fun _ v₂ bal => ?_
    exact balance_clean.mp bal

theorem openFails_wp {ip : Nat} (bal : Balance { op := 1 } v) :
    wp ftMachine ftOutline t (openFails ip) (fun _ v => v.Clean) v := by
  refine wp_bind (passBalance_wp bal (fun s c => ⟨(), rfl⟩) (fun _ => trivial) fun _ => ?_)
  refine wp_bind (endOp_wp bal.running (balance_clean.mp ⟨bal.running, ?_, bal.blank, bal.hand,
    bal.owns, bal.child, bal.refs⟩))
  have op : v.op = 1 := bal.op
  show v.op - 1 = 0
  rw [op]

theorem openInode_wp {omode : UInt32} {ip : Nat} {type : Fs.FileType} {major : Int}
    (bal : Balance { op := 1 } v) :
    wp ftMachine ftOutline t (openInode omode ip type major) (fun _ v => v.Clean) v := by
  unfold openInode
  split
  next => exact openFails_wp bal
  next =>
    refine wp_bind (fileallocBalance_wp bal (openFails_wp bal) fun f v₁ _ _ bal => ?_)
    refine wp_bind (fdallocBalance_wp bal ?_ fun fd v₂ _ _ bal => ?_)
    · -- The file has not been filled in, so that closing it does not begin a transaction.
      refine wp_seq (fileclose_extra_wp (a := { op := 1, blank := [f] }) bal (.inr (by simp)))
        fun _ v₂ bal => ?_
      exact openFails_wp (by simpa using bal)
    · refine wp_bind (setInode_wp bal.running ?_ ((bal.blank f).mpr (by simp)) ?_)
      · split <;> decide
      · have bal : Balance { op := 1 } { v₂ with blank := update v₂.blank f false } := by
          refine (Balance.cancel (a := { op := 1 }) (f := f)).mp ⟨bal.running, bal.op, fun g => ?_,
            bal.hand, bal.owns, bal.child, bal.refs⟩
          have := bal.blank g
          by_cases same : g = f
          · simp [same]
          · simpa [same] using this
        have finish : wp ftMachine ftOutline t (do
            (FtAct.iunlock ip).run
            FtAct.endOp.run
            return (fd : Int)) (fun _ v => v.Clean) { v₂ with blank := update v₂.blank f false } := by
          refine wp_bind (passBalance_wp bal (fun s c => ⟨(), rfl⟩) (fun _ => trivial) fun _ => ?_)
          refine wp_bind (endOp_wp bal.running (balance_clean.mp
            ⟨bal.running, ?_, bal.blank, bal.hand, bal.owns, bal.child, bal.refs⟩))
          show v₂.op - 1 = 0
          rw [show v₂.op = 1 from bal.op]
        split
        next => exact wp_bind (passBalance_wp bal (fun s c => ⟨(), rfl⟩) (fun _ => trivial) fun _ => finish)
        next => exact finish

theorem sysOpen_wp {omode : UInt32} (clean : v.Clean) :
    wp ftMachine ftOutline t (sysOpen omode) (fun _ v => v.Clean) v := by
  have bal := balance_clean.mpr clean
  refine wp_bind (passBalance_wp bal (fun s c => ⟨c.ok, rfl⟩) (fun _ => trivial) fun ok => ?_)
  cases ok with
  | false => exact clean
  | true =>
    refine wp_bind (beginOp_wp clean.running clean.op ?_)
    have bal : Balance { op := 1 } { v with op := 1 } :=
      ⟨bal.running, rfl, bal.blank, bal.hand, bal.owns, bal.child, bal.refs⟩
    have nothing : wp ftMachine ftOutline t (do FtAct.endOp.run; return (-1 : Int))
      (fun _ v => v.Clean) { v with op := 1 } :=
      wp_bind (endOp_wp clean.running (balance_clean.mp
        ⟨bal.running, rfl, bal.blank, bal.hand, bal.owns, bal.child, bal.refs⟩))
    split
    next =>
      refine wp_bind (passBalance_wp bal (fun s c => ⟨_, rfl⟩) (fun _ => trivial) fun found => ?_)
      cases found with
      | none => exact nothing
      | some ip =>
        refine wp_bind (passBalance_wp bal (fun s c => ⟨_, rfl⟩) (fun _ => trivial) fun attr => ?_)
        exact openInode_wp bal
    next =>
      refine wp_bind (passBalance_wp bal (fun s c => ⟨_, rfl⟩) (fun _ => trivial) fun found => ?_)
      cases found with
      | none => exact nothing
      | some ip =>
        refine wp_bind (passBalance_wp bal (fun s c => ⟨(), rfl⟩) (fun _ => trivial) fun _ => ?_)
        refine wp_bind (passBalance_wp bal (fun s c => ⟨_, rfl⟩) (fun _ => trivial) fun attr => ?_)
        obtain ⟨type, major⟩ := attr
        dsimp only
        split
        next => exact openFails_wp bal
        next => exact openInode_wp bal

theorem pipeFails_wp {rf wf : FileId} (bal : Balance { extra := [rf, wf] } v) :
    wp ftMachine ftOutline t (pipeFails rf wf) (fun _ v => v.Clean) v := by
  refine wp_seq (fileclose_extra_wp (a := {}) bal (.inl rfl)) fun _ v₁ bal => ?_
  refine wp_seq (fileclose_extra_wp (a := {}) bal (.inl rfl)) fun _ v₂ bal => ?_
  exact balance_clean.mp bal

theorem sysPipe_wp (clean : v.Clean) : wp ftMachine ftOutline t sysPipe (fun _ v => v.Clean) v := by
  refine wp_seq (pipealloc_wp clean) ?_
  rintro (_ | ⟨rf, wf⟩) v₁ allocated
  · exact allocated
  · have bal : Balance { extra := [rf, wf] } v₁ := allocated
    refine wp_bind (fdallocBalance_wp bal (pipeFails_wp bal) fun fd0 v₂ _ ofile₂ bal => ?_)
    have at0 : v₂.ofile fd0 = some rf := by rw [ofile₂, update_self]
    have bal : Balance { extra := [wf] } v₂ := (Balance.cancel (a := {})).mp bal
    refine wp_bind (fdallocBalance_wp bal ?_ fun fd1 v₃ empty ofile₃ bal => ?_)
    · exact wp_bind (clearBalance_wp bal at0 fun v₃ _ bal => pipeFails_wp bal)
    · have different : fd0 ≠ fd1 := by
        rintro rfl
        rw [at0] at empty
        cases empty
      have bal : Balance {} v₃ := (Balance.cancel (a := {})).mp bal
      have undo : wp ftMachine ftOutline t (do
          (FtAct.clear fd0).run
          (FtAct.clear fd1).run
          pipeFails rf wf) (fun _ v => v.Clean) v₃ := by
        refine wp_bind (clearBalance_wp (f := rf) bal ?_ fun v₄ ofile₄ bal => ?_)
        · rw [ofile₃, update_of_ne different, at0]
        · refine wp_bind (clearBalance_wp (f := wf) bal ?_ fun v₅ _ bal => pipeFails_wp bal.swap)
          rw [ofile₄, update_of_ne different.symm, ofile₃, update_self]
      refine wp_bind (passBalance_wp bal (fun s c => ⟨c.ok, rfl⟩) (fun _ => trivial) fun ok => ?_)
      cases ok with
      | false => exact undo
      | true =>
        refine wp_bind (passBalance_wp bal (fun s c => ⟨c.ok, rfl⟩) (fun _ => trivial) fun ok => ?_)
        cases ok with
        | false => exact undo
        | true => exact balance_clean.mp bal

/-! ## kernel/proc.c -/

theorem fork_wp (clean : v.Clean) : wp ftMachine ftOutline t fork (fun _ v => v.Clean) v := by
  have bal := balance_clean.mpr clean
  refine wp_bind (allocproc_wp clean.running clean fun np _ => ?_)
  set child : (Fd → Option FileId) → ProcId → Option (Fd → Option FileId) :=
    fun ofile => update (fun _ => none) np (some ofile) with hchild
  have bal : Balance { child := child fun _ => none } { v with
      child := update v.child np (some fun _ => none) } :=
    ⟨bal.running, bal.op, bal.blank, bal.hand, bal.owns, by rw [bal.child], bal.refs⟩
  -- The child is let go, or given up.
  have forget : ∀ ofile v', Balance { child := child ofile } v' →
      FtView.Clean { v' with child := update v'.child np none } := by
    intro ofile v' bal
    refine balance_clean.mp ⟨bal.running, bal.op, bal.blank, bal.hand, bal.owns, ?_, bal.refs⟩
    show update v'.child np none = _
    rw [bal.child, hchild]
    simp
  refine wp_bind (passBalance_wp bal (fun s c => ⟨c.ok, rfl⟩) (fun _ => trivial) fun ok => ?_)
  cases ok with
  | false =>
    exact wp_bind (freeproc_wp bal.running (by rw [bal.child, hchild]; simp) (forget _ _ bal))
  | true =>
    refine wp_seq (wp_forEach (J := fun rest v' => rest.Nodup ∧ ∃ ofile, Balance { child := child ofile } v' ∧
      ∀ fd ∈ rest, ofile fd = none) ?_ ⟨List.nodup_finRange _, _, bal, fun _ _ => rfl⟩) ?_
    · rintro fd rest v₁ ⟨nodup, ofile, bal, empty⟩
      obtain ⟨notIn, nodup⟩ := List.nodup_cons.mp nodup
      refine wp_bind (ofile_wp bal.running ?_)
      cases at' : v₁.ofile fd with
      | none => exact ⟨nodup, ofile, bal, fun fd' member => empty fd' (List.mem_cons_of_mem _ member)⟩
      | some f =>
        have mine : 0 < v₁.mine f := by
          have refs := bal.refs f
          have := fds_pos at'
          simp only [List.count_nil] at refs
          omega
        refine wp_bind (filedupBalance_wp bal mine (by simp) fun v₂ _ bal => ?_)
        refine setOfile_wp (o := ofile) bal.running (by rw [bal.child, hchild]; simp) (empty fd (by simp))
          (bal.mine_pos (by simp) rfl) ?_ ⟨nodup, update ofile fd (some f),
            ⟨bal.running, bal.op, bal.blank, bal.hand, bal.owns, ?_, fun g => ?_⟩, fun fd' member => ?_⟩
        · have := bal.blank f
          simpa using this
        · show update v₂.child np _ = _
          rw [bal.child, hchild]
          simp
        · have refs := bal.refs g
          simp only [List.count_nil] at refs ⊢
          by_cases same : g = f
          · subst same
            rw [List.count_singleton_self] at refs
            rw [update_self]
            omega
          · rw [List.count_cons_of_ne (Ne.symm same), List.count_nil] at refs
            rw [update_of_ne same]
            exact refs
        · rw [update_of_ne]
          · exact empty fd' (List.mem_cons_of_mem _ member)
          · rintro rfl
            exact notIn member
    · rintro _ v₁ ⟨_, ofile, bal, _⟩
      refine wp_bind (passBalance_wp bal (fun s c => ⟨(), rfl⟩) (fun _ => trivial) fun _ => ?_)
      exact wp_bind (setRunnable_wp (o := ofile) bal.running
        (by rw [bal.child, hchild]; simp) (forget _ _ bal))

theorem exit_wp {p : ProcId} (clean : v.Clean) :
    wp ftMachine ftOutline t (exit p) (fun _ v => v = .away) v := by
  have close : wp ftMachine ftOutline t (do
      Prog.forEach (fun fd => do
        whenSome (← (FtAct.ofile fd).run) fun f => do
          fileclose f
          (FtAct.clear fd).run) (List.finRange NOFILE)
      FtAct.beginOp.run
      FtAct.iputCwd.run
      FtAct.endOp.run
      FtAct.setZombie.run) (fun _ v => v = .away) v := by
    refine wp_seq (wp_forEach (J := fun rest v' => v'.Clean ∧ ∀ fd, fd ∉ rest → v'.ofile fd = none) ?_
      ⟨clean, fun fd notIn => absurd (List.mem_finRange fd) notIn⟩) ?_
    · rintro fd rest v₁ ⟨clean, closed⟩
      refine wp_bind (ofile_wp clean.running ?_)
      cases at' : v₁.ofile fd with
      | none =>
        refine ⟨clean, fun fd' notIn => ?_⟩
        by_cases same : fd' = fd
        · rw [same, at']
        · exact closed fd' (by simp [same, notIn])
      | some f =>
        have bal : Balance { extra := [f], lack := [f] } v₁ :=
          (Balance.cancel (a := {})).mpr (balance_clean.mpr clean)
        refine wp_seq (fileclose_wp (a := { lack := [f] }) bal (clean.mine_pos at') (.inl rfl)) ?_
        rintro _ v₂ ⟨bal, ofile⟩
        refine clearBalance_wp (f := f) bal (by rw [ofile, at']) fun v₃ ofile₃ bal => ?_
        refine ⟨balance_clean.mp ((Balance.cancel (a := {})).mp bal), fun fd' notIn => ?_⟩
        rw [ofile₃, ofile]
        by_cases same : fd' = fd
        · rw [same, update_self]
        · rw [update_of_ne same]
          exact closed fd' (by simp [same, notIn])
    · rintro _ v₁ ⟨clean, closed⟩
      have bal := balance_clean.mpr clean
      refine wp_bind (beginOp_wp clean.running clean.op (wp_bind ?_))
      refine pass_wp clean.running (fun s c => ⟨(), rfl⟩) (fun _ => trivial) fun _ => ?_
      refine wp_bind (endOp_wp clean.running (setZombie_wp ?_ fun fd => closed fd (by simp)))
      exact balance_clean.mp ⟨bal.running, rfl, bal.blank, bal.hand, bal.owns, bal.child, bal.refs⟩
  unfold exit
  split
  next =>
    refine wp_bind (ftStep_wp clean.running fun s c inv view now => ⟨trivial, ?_⟩)
    exact rfl
  next => exact close

end Xv6.Ftable
