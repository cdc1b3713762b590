import Xv6.Content.Trunc

namespace Xv6.Content
open Function

/-- An open file of type `FD_INODE`. -/
structure File where
  readable : Bool
  ip : Nat
  off : UInt32

namespace Volume

/-- `fileread` of an inode. -/
def fileread (s : Volume) (f : File) (dst : Bytes) (limit : Option Nat) (n : UInt32) :
    Except String (Int × File × Bytes × Volume) :=
  if !f.readable then .ok (-1, f, dst, s)
  else do
    let (r, dst, s) ← s.readi f.ip dst limit f.off.toNat n.toNat
    return (r, if 0 < r then { f with off := f.off + UInt32.ofNat r.toNat } else f, dst, s)

end Volume

/-- What is done with the contents of inodes. -/
inductive FileOp where
  | readi (i : Nat) (limit : Option Nat) (off n : UInt32)
  | writei (i : Nat) (src : Bytes) (limit : Option Nat) (off n : UInt32)
  | dirlink (i : Nat) (name : Bytes) (inum : Nat)
  | itrunc (i : Nat)

def FileOp.run (s : Volume) : FileOp → Except String Volume
  | .readi i limit off n => do return (← s.readi i (fun _ => 0) limit off.toNat n.toNat).2.2
  | .writei i src limit off n => do return (← s.writei i src limit off.toNat n.toNat).2
  | .dirlink i name inum => do return (← s.dirlink i name inum).2
  | .itrunc i => s.itrunc i

def FileOp.runs (ops : List FileOp) (s : Volume) : Except String Volume := ops.foldlM FileOp.run s

namespace Volume

section Holes

variable {s s' : Volume} {i off fuel inum : Nat} {name : Bytes} {messages : List String} {α β : Type}

/-- A step that is safe or stops with one of some messages. -/
def SafeRun (messages : List String) (s : Volume) : Except String (α × Volume) → Prop
  | .ok r => Safe s r.2
  | .error message => message ∈ messages

theorem SafeRun.bind {run : Except String (α × Volume)} {next : α × Volume → Except String (β × Volume)}
    (first : SafeRun messages s run) (rest : ∀ a s', Safe s s' → SafeRun messages s' (next (a, s'))) :
    SafeRun messages s (run >>= next) := by
  cases run with
  | error message => exact first
  | ok r =>
    have second := rest r.1 r.2 first
    show SafeRun messages s (next r)
    revert second
    cases next (r.1, r.2) with
    | error message => exact id
    | ok r' => exact first.trans

theorem SafeRun.pure (cons : s.Consistent) (a : α) : SafeRun messages s (Pure.pure (a, s)) := Safe.refl cons

theorem SafeRun.mono {more : List String} {run : Except String (α × Volume)} (sub : messages ⊆ more)
    (h : SafeRun messages s run) : SafeRun more s run := by
  cases run with
  | error message => exact sub h
  | ok r => exact h

theorem readDirent_safe (cons : s.Consistent) (message : String) :
    SafeRun [message] s (s.readDirent i off message) := by
  obtain ⟨r, de, s', run, safe, _⟩ := readi_spec i (fun _ => 0) none off cons
    (by decide : direntSize < 2 ^ 32)
  simp only [readDirent, run, Except.bind, Bind.bind]
  split
  · exact List.mem_singleton_self message
  · exact safe

theorem lookupLoop_safe (cons : s.Consistent) :
    SafeRun ["dirlookup read"] s (lookupLoop i name fuel off s) := by
  induction fuel generalizing off s with
  | zero => exact Safe.refl cons
  | succ fuel ih =>
    rw [lookupLoop]
    split
    · refine (readDirent_safe cons _).bind fun de s' safe => ?_
      simp only
      split
      · exact SafeRun.pure safe.cons _
      · exact ih safe.cons
    · exact Safe.refl cons

theorem dirlookup_safe (cons : s.Consistent) :
    SafeRun ["dirlookup not DIR", "dirlookup read"] s (s.dirlookup i name) := by
  unfold dirlookup
  split
  · exact List.mem_cons_self ..
  · exact (lookupLoop_safe cons).mono (by simp)

theorem emptyLoop_safe (cons : s.Consistent) : SafeRun ["dirlink read"] s (emptyLoop i fuel off s) := by
  induction fuel generalizing off s with
  | zero => exact Safe.refl cons
  | succ fuel ih =>
    rw [emptyLoop]
    split
    · refine (readDirent_safe cons _).bind fun de s' safe => ?_
      simp only
      split
      · exact SafeRun.pure safe.cons _
      · exact ih safe.cons
    · exact Safe.refl cons

/-- The stops that `dirlink` may come to on an inode that is not a directory as it should be. -/
def dirPanics : List String := ["dirlookup not DIR", "dirlookup read", "dirlink read"]

theorem dirlink_safe (i : Nat) (name : Bytes) (inum : Nat) (cons : s.Consistent) : SafeRun dirPanics s
    (s.dirlink i name inum) := by
  refine ((dirlookup_safe cons).mono (by simp [dirPanics])).bind fun found s₁ safe => ?_
  simp only
  split
  · exact SafeRun.pure safe.cons _
  refine ((emptyLoop_safe safe.cons).mono (by simp [dirPanics])).bind fun off s₂ safe => ?_
  obtain ⟨r, s₃, run, safe⟩ := writei_safe i (dirent inum name) none off safe.cons
    (by decide : direntSize < 2 ^ 32)
  simp only [run, Except.bind, Bind.bind]
  exact safe

end Holes

end Volume

section Runs

open Volume

variable {s s' : Volume} {i : Nat}

theorem FileOp.run_safe (cons : s.Consistent) (op : FileOp) :
    SafeRun dirPanics s ((op.run s).map fun s' => ((), s')) := by
  cases op with
  | readi i limit off n =>
    obtain ⟨r, dst, s', run, safe, _⟩ := readi_spec i (fun _ => 0) limit off.toNat
      cons n.toNat_lt
    simp only [FileOp.run, run, Except.bind, Bind.bind]
    exact safe
  | writei i src limit off n =>
    obtain ⟨r, s', run, safe⟩ := writei_safe i src limit off.toNat cons n.toNat_lt
    simp only [FileOp.run, run, Except.bind, Bind.bind]
    exact safe
  | dirlink i name inum =>
    have safe := dirlink_safe i name inum cons
    simp only [FileOp.run]
    revert safe
    cases s.dirlink i name inum with
    | error message => exact id
    | ok r => exact id
  | itrunc i =>
    obtain ⟨s', run, safe⟩ := itrunc_safe (i := i) cons
    simp only [FileOp.run, run]
    exact safe

/-- What the contents may have come to. -/
theorem FileOp.runs_safe (cons : s.Consistent) (ops : List FileOp) :
    match FileOp.runs ops s with
    | .ok s' => Safe s s'
    | .error message => message ∈ dirPanics := by
  induction ops generalizing s with
  | nil => exact Safe.refl cons
  | cons op rest ih =>
    have first := op.run_safe cons
    rw [FileOp.runs, List.foldlM_cons]
    revert first
    cases op.run s with
    | error message => exact id
    | ok s₁ =>
      intro first
      have first : Safe s s₁ := first
      have then' := ih first.cons
      simp only [Bind.bind, Except.bind]
      revert then'
      unfold FileOp.runs
      cases List.foldlM FileOp.run s₁ rest with
      | error message => exact id
      | ok s' => exact first.trans

end Runs

/-- An inode without holes stays so through any operations on the contents of this and other inodes, whether
they succeed or end early, and reading it changes nothing: neither `readi` nor `fileread` calls `balloc` or
`log_write`. Nothing stops the operations but a `dirlink` on what is not a directory as it should be. -/
theorem noHoles_kept {s : Volume} {i : Nat} (cons : s.Consistent) (full : s.NoHoles i) (ops : List FileOp) :
    match FileOp.runs ops s with
    | .error message => message ∈ Volume.dirPanics
    | .ok s' => s'.NoHoles i ∧
      (∀ (dst : Bytes) (limit : Option Nat) (off n : UInt32),
        ∃ r dst', s'.readi i dst limit off.toNat n.toNat = .ok (r, dst', s')) ∧
      ∀ (f : File) (dst : Bytes) (limit : Option Nat) (n : UInt32), f.ip = i →
        ∃ r f' dst', s'.fileread f dst limit n = .ok (r, f', dst', s') := by
  have safe := FileOp.runs_safe cons ops
  revert safe
  cases FileOp.runs ops s with
  | error message => exact id
  | ok s' =>
    intro safe
    have safe : Volume.Safe s s' := safe
    have now := safe.noHoles i full
    have read : ∀ (dst : Bytes) (limit : Option Nat) (off n : UInt32),
        ∃ r dst', s'.readi i dst limit off.toNat n.toNat = .ok (r, dst', s') := fun dst limit off n => by
      obtain ⟨r, dst', s'', run, _, _, same⟩ := Volume.readi_spec i dst limit off.toNat safe.cons n.toNat_lt
      rw [same now] at run
      exact ⟨r, dst', run⟩
    refine ⟨now, read, fun f dst limit n atInode => ?_⟩
    subst atInode
    obtain ⟨r, dst', run⟩ := read dst limit f.off n
    unfold Volume.fileread
    cases f.readable with
    | false => exact ⟨-1, f, dst, rfl⟩
    | true => exact ⟨r, _, dst', by simp only [run, Bind.bind, Except.bind]; rfl⟩

/-- A file system with one empty file, inode 5. -/
def emptyVolume : Volume := ⟨2000, fun b => b < 46, fun _ _ => 0, fun _ => ⟨T_FILE, 1, 0, fun _ => 0⟩, 0, 0⟩

theorem emptyVolume_consistent : emptyVolume.Consistent := by
  refine ⟨fun i l j m _ _ _ present => ?_, fun i l _ present => ?_, by decide, fun i => by simp [emptyVolume]⟩
  all_goals exact absurd (by simp [Volume.slot, emptyVolume]) present

theorem emptyVolume_noHoles (i : Nat) : emptyVolume.NoHoles i := fun bn below => by
  simp [emptyVolume] at below

theorem noHoles_kept_write : ∃ s', FileOp.runs [.writei 5 (fun _ => 7) none 0 20000] emptyVolume = .ok s' ∧
    (s'.inode 5).size = 20000 ∧ s'.NoHoles 5 := by
  have written : ((FileOp.runs [.writei 5 (fun _ => 7) none 0 20000] emptyVolume).map
      fun s' => (s'.inode 5).size) = .ok 20000 := by decide +kernel
  generalize [FileOp.writei 5 (fun _ => 7) none 0 20000] = ops at written ⊢
  have kept := noHoles_kept emptyVolume_consistent (i := 5) (emptyVolume_noHoles 5) ops
  revert kept written
  cases FileOp.runs ops emptyVolume with
  | error message => exact fun written _ => by cases written
  | ok s' => exact fun written kept => ⟨s', rfl, Except.ok.inj written, kept.1⟩

end Xv6.Content
