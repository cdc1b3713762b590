import Xv6.Links.Owned

/-! What a call, a `fork` or an `exit` does to a sound state. -/

namespace Xv6.Sysfile.Links
open Function Content Content.Volume Namei

/-- What holds between two events. -/
structure Sound (n start : Nat) (w : World) : Prop where
  small : n ≤ 65536
  steady : Steady n start w.kernel.fs
  owned : Owned n w.live [] w.kernel.volume w.kernel
  dead {p} : w.live p = false → ∀ fd, (w.kernel.proc p).ofile fd = none

/-- After an event the state is sound, and the directories are as they were. -/
def Keeps (n start : Nat) (k : Kernel) (live : ProcId → Bool) (k' : Kernel) : Prop :=
  Sound n start ⟨k', live⟩ ∧ tree k'.volume = tree k.volume

/-- What is left of a `struct file` that loses a reference. -/
def lost (file : Sysfile.File) : Sysfile.File :=
  if 1 < file.ref then { file with ref := file.ref - 1 } else { file with ref := 0, type := .none }

/-- The process has a descriptor less. -/
def cleared (k : Kernel) (fd : Fin NOFILE) : Kernel :=
  { k with proc := update k.proc k.myproc { k.proc k.myproc with ofile := update (k.proc k.myproc).ofile fd none } }

section Events

variable {n start i : Nat} {live : ProcId → Bool} {k k₀ k' : Kernel} {s s' : Fs} {v v' : Volume}
  {held : List (Namei.Slot × Nat)}
  {locks : List Namei.Slot} {b ip : Namei.Slot} {f g : Fin NFILE} {file : Sysfile.File}
  {p q np : ProcId} {fd : Fin NOFILE}
  {limit : Option Nat} {m other : Int} {src : Bytes} {E : String → Prop}

theorem Steady.congr (steady : Steady n start s) (volume : s'.volume = s.volume)
    (inode : s'.inode = s.inode) : Steady n start s' := by
  obtain ⟨_, _, c⟩ := s
  obtain ⟨_, _, c'⟩ := s'
  dsimp only at volume inode
  subst volume inode
  exact ⟨steady.linked, steady.tight, steady.unlocked, steady.unique, steady.sure, steady.used, steady.kept⟩

theorem Fit.congr (fit : Fit n start held v s) (volume : s'.volume = s.volume)
    (inode : s'.inode = s.inode) : Fit n start held v s' := by
  obtain ⟨_, _, c⟩ := s
  obtain ⟨_, _, c'⟩ := s'
  dsimp only at volume inode
  subst volume inode
  exact ⟨fit.linked, fit.tight, fit.live, fit.types, fit.used⟩

theorem Owned.congr (o : Owned n live held v k) (rest : k'.ninodes = k.ninodes ∧
      k'.outstanding = k.outstanding) (proc : k'.proc = k.proc)
    (inode : k'.inode = k.inode) (volume : k'.volume = k.volume)
    (files : ∀ g, (k'.file g).ref = (k.file g).ref ∧
      (k'.file g).type = (k.file g).type ∧ (k'.file g).ip = (k.file g).ip ∧ (k'.file g).writable =
      (k.file g).writable) :
    Owned n live held v k' := by
  refine ⟨rest.1.trans o.ninodes, rest.2.trans o.idle, ⟨fun g => ?_, fun {g} => ?_⟩, fun b => ?_,
    fun {p} alive => ?_, fun {g} opens writes => ?_⟩
  · unfold descriptors
    rw [(files g).1, proc]
    exact o.counted.refs g
  · rw [(files g).1, (files g).2.1]
    exact o.counted.closed
  · have same (g : Fin NFILE) : fileHolds b (k'.file g) = fileHolds b (k.file g) := by
      refine fileHolds_congr ?_ (files g).2.2.1
      unfold OnInode
      rw [(files g).2.1]
    have count := o.shares b
    unfold holders at count ⊢
    simp only [same, proc, inode]
    exact count
  · rw [proc]
    exact (o.cwd alive).mono (congrFun inode _) volume fun _ => id
  · unfold OnInode at opens
    rw [(files g).2.1] at opens
    rw [(files g).2.2.2] at writes
    rw [(files g).2.2.1]
    exact (o.writable opens writes).mono (congrFun inode _) volume fun _ => id

theorem Owned.any (o : Owned n live [] v k) : Owned n live [] v' k :=
  ⟨o.ninodes, o.idle, o.counted, o.shares, fun alive => (o.cwd alive).grow rfl rfl,
    fun opens writes => (o.writable opens writes).grow rfl rfl⟩

theorem Sound.settle (small : n ≤ 65536) (o : Owned n live held v k) (h : Midway held [] v k k')
    (fit : Fit n start held v k.fs)
    (dead : ∀ q, live q = false → ∀ fd, (k.proc q).ofile fd = none) : Sound n start ⟨k', live⟩ :=
  ⟨small, .of_fit h.during fit, o.settle h fit, fun none => h.rest.proc ▸ dead _ none⟩

theorem Sound.scheduled (sound : Sound n start ⟨k, live⟩) (p : ProcId) :
    Sound n start ⟨Links.scheduled k p, live⟩ :=
  ⟨sound.small, sound.steady.congr rfl rfl, sound.owned.congr ⟨rfl, rfl⟩ rfl rfl rfl fun _ =>
    ⟨rfl, rfl, rfl, rfl⟩, sound.dead⟩

theorem Sound.keeps (sound : Sound n start ⟨k, live⟩) : Keeps n start k live k := ⟨sound, rfl⟩

theorem Sound.shares (sound : Sound n start ⟨k, live⟩) (b : Namei.Slot) :
    holders live k b = (k.inode b).ref := sound.owned.count b

theorem Sound.referenced (sound : Sound n start ⟨k, live⟩) (opens : OnInode (k.file f)) :
    0 < (k.inode (k.file f).ip).ref :=
  sound.shares _ ▸ holders_file opens

theorem Sound.caller (sound : Sound n start ⟨k, live⟩) (alive : live k.myproc = true)
    (few : ∀ i, (k.volume.inode i).nlink < 32767) :
    Caller n start k where
  steady := sound.steady
  ninodes := sound.owned.ninodes
  small := sound.small
  cwd := by
    have owned := holders_cwd (k := k) alive
    rw [sound.shares] at owned
    exact owned
  few := few

/-! ### Reading and writing -/

/-- A call uses a reference that a file has. -/
theorem Owned.take (o : Owned n live [] k.volume k) (used : 0 < (k.inode b).ref)
    (type : (v.inode (k.inum b)).type = (k.volume.inode (k.inum b)).type) :
    Owned n live [(b, k.inum b)] v (Links.lower k b) := by
  have apart {c : Namei.Slot} (here : c ≠ b) : (Links.lower k b).inode c = k.inode c := update_of_ne here ..
  have typed {c : Namei.Slot} {P : Nat → Prop} (typed : Typed k [] k.volume c P) :
    Typed (Links.lower k b) [(b, k.inum b)] v c P := by
    by_cases here : c = b
    · subst here
      exact .inr ⟨_, List.mem_singleton_self _, type ▸ typed.holds⟩
    · exact typed.grow (apart here) rfl
  refine ⟨o.ninodes, o.idle, ⟨o.counted.refs, o.counted.closed⟩, fun c => ?_, fun alive =>
    typed (o.cwd alive), fun opens writes =>
    typed (o.writable opens writes)⟩
  show holders live k c = _
  rw [count_cons_fst, o.count c]
  show _ = _ + (0 + _)
  by_cases here : c = b
  · subst here
    have self : (Links.lower k c).inode c = { k.inode c with ref := (k.inode c).ref - 1 } := update_self ..
    rw [self, if_pos rfl]
    dsimp only
    omega
  · rw [apart here, if_neg fun same => here same.symm]
    rfl

theorem setFile_same (k : Kernel) (f : Fin NFILE) (off : Nat) (g : Fin NFILE) :
    ((k.setFile f { k.file f with off }).file g).ref = (k.file g).ref ∧
    ((k.setFile f { k.file f with off }).file g).type = (k.file g).type ∧
    ((k.setFile f { k.file f with off }).file g).ip = (k.file g).ip ∧
    ((k.setFile f { k.file f with off }).file g).writable = (k.file g).writable := by
  unfold Kernel.setFile
  dsimp only
  by_cases here : g = f
  · rw [here, update_self]
    exact ⟨rfl, rfl, rfl, rfl⟩
  · rw [update_of_ne here]
    exact ⟨rfl, rfl, rfl, rfl⟩

theorem Owned.setOff (o : Owned n live held v k) (f : Fin NFILE) (off : Nat) :
    Owned n live held v (k.setFile f { k.file f with off }) :=
  o.congr ⟨rfl, rfl⟩ rfl rfl rfl (setFile_same k f off)

theorem Midway.setOff (h : Midway held locks v k₀ k) (f : Fin NFILE) (off : Nat) :
    Midway held locks v (k₀.setFile f { k₀.file f with off }) (k.setFile f { k.file f with off }) := by
  have file : (k.setFile f { k.file f with off }).file = (k₀.setFile f { k₀.file f with off }).file := by
    show update k.file f _ = update k₀.file f _
    rw [h.rest.file]
  exact ⟨h.during, { h.rest with file }⟩

theorem advance_ends {r : Int} {α : Type} {rest : Unit → SysM α} {R : α → Kernel → Prop}
    (h : Midway held locks v k₀ k)
    (next : ∀ off k', Midway held locks v (k₀.setFile f { k₀.file f with off }) k' → Ends (rest ()) k' E R) :
    Ends (advance f r >>= rest) k E R := Ends.seq (Ends.modify (next _ _ (h.setOff f _)))

theorem readi_ends (h : Midway held locks v k₀ k) {off size : Nat} {r : Int} {dst : Bytes}
    (run : v.readi i (fun _ => 0) limit off size = .ok (r, dst, v)) :
    Ends (readi i limit off size) k E fun r' k' => r' = r ∧ Midway held locks v k₀ k' := by
  refine h.onVolume ?_ fun _ => id
  simp only [run, bind, Except.bind]
  rfl

theorem fileread_ends (sound : Sound n start ⟨k, live⟩) (used : 0 < (k.file f).ref) :
    Ends (fileread f limit m other) k Full fun _ k' => Keeps n start k live k' := by
  unfold fileread
  refine Ends.bind_run (rfl : (get : SysM Kernel) k = .ok (k, k)) ?_
  refine Ends.ite (fun _ => Ends.pure sound.keeps) fun _ => ?_
  cases kind : (k.file f).type with
  | pipe => exact Ends.pure sound.keeps
  | device => exact Ends.pure sound.keeps
  | none =>
    have unused := sound.owned.counted.closed.mpr kind
    dsimp only at unused
    omega
  | inode =>
    have ref := sound.referenced (.inl kind)
    have fit : Fit n start [((k.file f).ip, k.inum (k.file f).ip)] k.volume (lower k (k.file f).ip).fs :=
      sound.steady.fit.lower ref
    have o : Owned n live [((k.file f).ip, k.inum (k.file f).ip)] k.volume (lower k (k.file f).ip) :=
      sound.owned.take ref rfl
    have h : Midway [((k.file f).ip, k.inum (k.file f).ip)] [] k.volume (lower k (k.file f).ip) k :=
      (Midway.refl sound.steady).lower ref
    have allocated := fit.used (List.mem_cons_self ..)
    refine (h.ilock (List.mem_cons_self ..) List.not_mem_nil allocated).bind fun _ k₁ h => ?_
    refine Ends.bind_run (rfl : (get : SysM Kernel) k₁ = .ok (k₁, k₁)) ?_
    rw [h.inum (List.mem_cons_self ..)]
    have bound : uint m < 2 ^ 32 := by
      unfold uint
      omega
    obtain ⟨r, dst, v, run, -, -, same⟩ :=
      readi_spec (k.inum (k.file f).ip) (fun _ => 0) limit (k.file f).off fit.linked.cons bound
    obtain rfl := same (fit.linked.full allocated)
    refine (readi_ends h run).bind fun r' k₂ both => ?_
    obtain ⟨rfl, h⟩ := both
    have finish {k₀ k' : Kernel} (h : Midway [((k.file f).ip, k.inum (k.file f).ip)]
        [(k.file f).ip] k.volume k₀ k')
        (o : Owned n live [((k.file f).ip, k.inum (k.file f).ip)] k.volume k₀)
        (same : k₀.fs.volume = k.volume ∧ k₀.inode = (lower k (k.file f).ip).inode)
        (proc : k₀.proc = k.proc) :
        Ends (do onFs (iunlock (k.file f).ip); return r' : SysM Int) k' Full fun _ k' =>
        Keeps n start k live k' := by
      refine (h.iunlock List.not_mem_nil).bind fun _ k'' h => Ends.pure
        ⟨.settle sound.small o h (fit.congr same.1 same.2) fun q none => ?_, ?_⟩
      · rw [proc]
        exact sound.dead none
      · rw [h.volume]
    refine Ends.ite (fun _ => ?_) fun _ => finish h o ⟨rfl, rfl⟩ rfl
    exact advance_ends h fun off k' h => finish h (o.setOff f off) ⟨rfl, rfl⟩ rfl

theorem setSize_type (v : Volume) (i size : Nat) : ((v.setSize i size).inode i).type = (v.inode i).type := by
  have self : (v.setSize i size).inode i = { v.inode i with size } := update_self ..
  rw [self]

/-- A round of the loop of `filewrite`. -/
theorem writeRound_ends (sound : Sound n start ⟨k, live⟩) (kind : (k.file f).type = .inode)
    (writes : (k.file f).writable = true)
    {size : Nat} (bound : size < 2 ^ 32) {α : Type} {rest : Int → SysM α} {R : α → Kernel → Prop}
    (next : ∀ r k', Keeps n start k live k' → (k'.file f).type = .inode → (k'.file f).writable = true →
      Ends (rest r) k' Full R) :
    Ends (do
      beginOp
      let ff := (← get).file f
      onFs (ilock ff.ip)
      let inum := (← get).inum ff.ip
      let r ← onFs (onVolume fun v => v.writei inum src limit ff.off size)
      if 0 < r then advance f r
      onFs (iunlock ff.ip)
      endOp
      rest r : SysM α) k Full R := by
  have ref := sound.referenced (.inl kind)
  have fit : Fit n start [((k.file f).ip, k.inum (k.file f).ip)] k.volume (lower k (k.file f).ip).fs :=
    sound.steady.fit.lower ref
  have begun : Steady n start k.begun.fs := sound.steady.congr rfl rfl
  have first : Midway [] [] k.volume k.begun k.begun := .refl begun
  have h : Midway [((k.file f).ip, k.inum (k.file f).ip)] [] k.volume (lower k (k.file f).ip).begun
    k.begun := first.lower ref
  have allocated := fit.used (List.mem_cons_self ..)
  have regular : (k.volume.inode (k.inum (k.file f).ip)).type ≠ T_DIR :=
    (sound.owned.writable (.inl kind) writes).holds
  refine beginOp_ends (Ends.bind_run (rfl : (get : SysM Kernel) k.begun = .ok (k.begun, k.begun)) ?_)
  refine (h.ilock (List.mem_cons_self ..) List.not_mem_nil allocated).bind fun _ k₁ h => ?_
  refine Ends.bind_run (rfl : (get : SysM Kernel) k₁ = .ok (k₁, k₁)) ?_
  have inum : k₁.inum (k.begun.file f).ip = k.inum (k.file f).ip := h.inum (List.mem_cons_self ..)
  rw [inum]
  have written := writei_spec (k.inum (k.file f).ip) src limit (k.file f).off fit.linked.cons bound
  obtain ⟨r, v, run, done⟩ := written
  obtain ⟨only, nlink⟩ := writei_only fit.linked.cons bound run
  have tight := fit.tight.writei fit.linked.cons allocated run bound
  obtain ⟨cons, type, full⟩ : v.Consistent ∧ (v.inode (k.inum (k.file f).ip)).type =
    (k.volume.inode (k.inum (k.file f).ip)).type ∧
      v.NoHoles (k.inum (k.file f).ip) := by
    rcases done with ⟨-, rfl, -⟩ | ⟨off', tot', v₁, -, at_most, fits, written, rfl⟩
    · exact ⟨fit.linked.cons, rfl, fit.linked.full allocated⟩
    · have safe := written.safe fit.linked.cons at_most fits
      refine ⟨safe.cons, ?_, safe.noHoles _ (fit.linked.full allocated)⟩
      exact (setSize_type v₁ _ _).trans written.wrote.fields.1
  obtain ⟨fit', trees, same⟩ := Fit.contents fit regular cons tight only type nlink full
  refine (h.onVolume run fun e linked => (same e).2.trans_ne linked).bind fun r' k₂ both => ?_
  obtain ⟨rfl, h⟩ := both
  have o : Owned n live [((k.file f).ip, k.inum (k.file f).ip)] v (lower k (k.file f).ip) :=
    sound.owned.take ref type
  have finish {k₀ k' : Kernel} (h : Midway [((k.file f).ip, k.inum (k.file f).ip)]
      [(k.file f).ip] v k₀.begun k')
      (o : Owned n live [((k.file f).ip, k.inum (k.file f).ip)] v k₀) (same : k₀.fs.volume = k.volume ∧
        k₀.inode = (lower k (k.file f).ip).inode)
      (proc : k₀.proc = k.proc) (file : (k₀.file f).type = (k.file f).type ∧ (k₀.file f).writable =
        (k.file f).writable) :
      Ends (do onFs (iunlock (k.file f).ip); endOp; rest r' : SysM α) k' Full R := by
    refine (h.iunlock List.not_mem_nil).bind fun _ k₃ h => endOp_ends h fun k₄ h => next _ _ ⟨?_, ?_⟩ ?_ ?_
    · refine .settle sound.small o h (fit'.congr same.1 same.2) fun q none => ?_
      rw [proc]
      exact sound.dead none
    · rw [h.volume, trees]
    · rw [h.rest.file, file.1, kind]
    · rw [h.rest.file, file.2, writes]
  refine Ends.ite (fun _ => ?_) fun _ => finish h o ⟨rfl, rfl⟩ rfl ⟨rfl, rfl⟩
  refine advance_ends h fun off k' h => ?_
  have h : Midway [((k.file f).ip, k.inum (k.file f).ip)] [(k.file f).ip] v
    ((lower k (k.file f).ip).setFile f { k.file f with off }).begun k' := h
  refine finish h (o.setOff f off) ⟨rfl, rfl⟩ rfl ?_
  have fields := setFile_same (lower k (k.file f).ip) f off f
  exact ⟨fields.2.1, fields.2.2.2⟩

theorem filewriteLoop_ends (sound : Sound n start ⟨k, live⟩) (kind : (k.file f).type = .inode)
    (writes : (k.file f).writable = true)
    (size fuel j : Nat) : Ends (filewriteLoop f src limit size fuel j) k Full fun _ k' =>
    Keeps n start k live k' := by
  induction fuel generalizing k j with
  | zero => exact Ends.pure sound.keeps
  | succ fuel ih =>
    unfold filewriteLoop
    refine Ends.ite (fun _ => ?_) fun _ => Ends.pure sound.keeps
    have bound : min (size - j) maxChunk < 2 ^ 32 := Nat.lt_of_le_of_lt (Nat.min_le_right ..) (by decide)
    refine writeRound_ends sound kind writes bound fun r k' keeps kind writes => ?_
    refine Ends.ite (fun _ => Ends.pure keeps) fun _ => ?_
    exact (ih keeps.1 kind writes _).mono fun _ _ after => ⟨after.1, after.2.trans keeps.2⟩

theorem filewrite_ends (sound : Sound n start ⟨k, live⟩) (used : 0 < (k.file f).ref) :
    Ends (filewrite f src limit m other) k Full fun _ k' => Keeps n start k live k' := by
  unfold filewrite
  refine Ends.bind_run (rfl : (get : SysM Kernel) k = .ok (k, k)) ?_
  refine Ends.ite (fun _ => Ends.pure sound.keeps) fun writes => ?_
  cases kind : (k.file f).type with
  | pipe => exact Ends.pure sound.keeps
  | device => exact Ends.pure sound.keeps
  | none =>
    have unused := sound.owned.counted.closed.mpr kind
    dsimp only at unused
    omega
  | inode =>
    have writes : (k.file f).writable = true := by
      cases mode : (k.file f).writable with
      | true => rfl
      | false => exact absurd (by rw [mode]; rfl) writes
    exact (filewriteLoop_ends sound kind writes ..).bind fun _ _ keeps => Ends.pure keeps

/-! ### Descriptors -/

theorem argfd_ends : Ends (argfd m) k E fun r k' => k' = k ∧ ∀ fd f, r = some (fd, f) →
    (k.proc k.myproc).ofile fd = some f := by
  unfold argfd
  refine Ends.bind_run (rfl : (get : SysM Kernel) k = .ok (k, k)) ?_
  by_cases inside : 0 ≤ m ∧ m < NOFILE
  · rw [dif_pos inside]
    refine Ends.pure ⟨rfl, fun fd f same => ?_⟩
    obtain ⟨g, there, pair⟩ := Option.map_eq_some_iff.mp same
    obtain ⟨rfl, rfl⟩ := Prod.mk.inj pair
    exact there
  · rw [dif_neg inside]
    exact Ends.pure ⟨rfl, fun fd f same => absurd same.symm (Option.some_ne_none _)⟩

theorem sysRead_ends {a : Int} (sound : Sound n start ⟨k, live⟩) :
    Ends (sysRead a limit m other) k Full fun _ k' => Keeps n start k live k' := by
  refine argfd_ends.bind fun r k' found => ?_
  obtain ⟨rfl, found⟩ := found
  rcases r with _ | ⟨fd, f⟩
  · exact Ends.pure sound.keeps
  · exact fileread_ends sound (sound.owned.counted.used (found fd f rfl))

theorem sysWrite_ends {a : Int} (sound : Sound n start ⟨k, live⟩) :
    Ends (sysWrite a src limit m other) k Full fun _ k' => Keeps n start k live k' := by
  refine argfd_ends.bind fun r k' found => ?_
  obtain ⟨rfl, found⟩ := found
  rcases r with _ | ⟨fd, f⟩
  · exact Ends.pure sound.keeps
  · exact filewrite_ends sound (sound.owned.counted.used (found fd f rfl))

/-- One more descriptor for a file. -/
theorem Owned.dup (o : Owned n live held v k) (used : 0 < (k.file f).ref)
    (free : (k.proc p).ofile fd = none) :
    Owned n live held v (store k f { k.file f with ref := (k.file f).ref + 1 } p fd (some f)) := by
  have closed : (k.file f).type ≠ .none := fun none => by
    have unused := o.counted.closed.mpr none
    omega
  have counted : Counted (store k f { k.file f with ref := (k.file f).ref + 1 } p fd (some f)) := by
    refine o.counted.store (fun g wrong => ?_) (fun g same => (Option.some.inj same).symm) ?_ ?_
    · rw [free] at wrong
      exact absurd wrong.symm (Option.some_ne_none g)
    · rw [free, points_self, points_none]
    · exact ⟨fun wrong => absurd wrong (Nat.succ_ne_zero _), fun none => absurd none closed⟩
  exact o.stored counted (fun b => fileHolds_congr Iff.rfl rfl) fun opens writes => ⟨opens, writes, rfl⟩

theorem filedup_run (used : 0 < (k.file f).ref) :
    filedup f k = .ok ((), k.setFile f { k.file f with ref := (k.file f).ref + 1 }) := by
  have some : ¬(k.file f).ref < 1 := by omega
  unfold filedup
  show (if (k.file f).ref < 1 then throw "filedup" else set (k.setFile f { k.file f with
      ref := (k.file f).ref + 1 }) : SysM Unit) k = _
  rw [if_neg some]
  rfl

theorem fdalloc_ends : Ends (fdalloc f) k E fun r k' =>
    r = none ∧ k' = k ∨ ∃ fd, r = some fd ∧ (k.proc k.myproc).ofile fd = none ∧
      k' = { k with
        proc := update k.proc k.myproc
          { k.proc k.myproc with ofile := update (k.proc k.myproc).ofile fd (some f) } } := by
  unfold fdalloc
  refine Ends.bind_run (rfl : (get : SysM Kernel) k = .ok (k, k)) ?_
  dsimp only
  cases found : (List.finRange NOFILE).find? fun fd => ((k.proc k.myproc).ofile fd).isNone with
  | none => exact Ends.pure (.inl ⟨rfl, rfl⟩)
  | some fd =>
    have free := List.find?_some found
    rw [Option.isNone_iff_eq_none] at free
    exact Ends.bind_run rfl (Ends.pure (.inr ⟨fd, rfl, free, rfl⟩))

/-- A process that runs has other descriptors, and others have those they had. -/
theorem Sound.stored (sound : Sound n start ⟨k, live⟩) (alive : live p = true) {x : Option (Fin NFILE)}
    (gone : live q = false) (e : Fin NOFILE) :
    ((store k f file p fd x).proc q).ofile e = none := by
  have apart : q ≠ p := by
    rintro rfl
    rw [alive] at gone
    exact Bool.noConfusion gone
  show (update k.proc p _ q).ofile e = _
  rw [update_of_ne apart]
  exact sound.dead gone e

theorem sysDup_ends {a : Int} (sound : Sound n start ⟨k, live⟩) (alive : live k.myproc = true) :
    Ends (sysDup a) k Full fun _ k' => Keeps n start k live k' := by
  refine argfd_ends.bind fun r k' found => ?_
  obtain ⟨rfl, found⟩ := found
  rcases r with _ | ⟨fd, f⟩
  · exact Ends.pure sound.keeps
  have used := sound.owned.counted.used (found fd f rfl)
  refine fdalloc_ends.bind fun r k₁ new => ?_
  rcases new with ⟨rfl, rfl⟩ | ⟨fd', rfl, free, rfl⟩
  · exact Ends.pure sound.keeps
  · refine Ends.bind_run (filedup_run used)
      (Ends.pure ⟨⟨sound.small, sound.steady.congr rfl ?_, sound.owned.dup used free, fun gone =>
      sound.stored alive gone⟩, rfl⟩)
    rfl

/-! ### Files that are closed -/

theorem not_onInode (kind : file.type = .pipe ∨ file.type = .none) : ¬OnInode file := by
  rintro (opens | opens)
  all_goals
    rw [opens] at kind
    revert kind
    decide

/-- `fileclose` of a file in use. -/
theorem fileclose_drops (steady : Steady n start k.fs) (used : 0 < (k.file f).ref)
    (ref : OnInode (k.file f) → 0 < (k.inode (k.file f).ip).ref) :
    Ends (fileclose f) k Full fun _ k' =>
      ((1 < (k.file f).ref ∨ ¬OnInode (k.file f)) ∧ ∃ l, k' = { k.setFile f (lost (k.file f)) with
          pipecloses := l }) ∨
      (k.file f).ref = 1 ∧ OnInode (k.file f) ∧ ∃ v, Midway [] [] v
      (lower (k.setFile f (lost (k.file f))) (k.file f).ip) k' ∧
        Fit n start [] v (lower k (k.file f).ip).fs ∧ tree v = tree k.volume := by
  unfold fileclose
  refine Ends.bind_run (rfl : (get : SysM Kernel) k = .ok (k, k)) ?_
  dsimp only
  refine Ends.ite (fun wrong => by omega) fun _ => Ends.ite (fun more => ?_) fun last => ?_
  · have many : 1 < (k.file f).ref := by omega
    have value : lost (k.file f) = { k.file f with ref := (k.file f).ref - 1 } := if_pos many
    refine .inl ⟨.inl many, k.pipecloses, ?_⟩
    rw [value]
    rfl
  · have one : (k.file f).ref = 1 := by omega
    have value : lost (k.file f) = { k.file f with ref := 0, type := .none } := if_neg (by omega)
    rw [← value]
    refine Ends.bind_run rfl ?_
    have shut (opens : OnInode (k.file f)) :
      Ends (do beginOp; onFs (iput (k.file f).ip); endOp : SysM Unit) (k.setFile f (lost (k.file f))) Full
        fun _ k' => ∃ v, Midway [] [] v (lower (k.setFile f (lost (k.file f))) (k.file f).ip) k' ∧
          Fit n start [] v (lower k (k.file f).ip).fs ∧ tree v = tree k.volume := by
      have begun : Steady n start (k.setFile f (lost (k.file f))).begun.fs := steady.congr rfl rfl
      have first : Midway [] [] k.volume (k.setFile f (lost (k.file f))).begun
        (k.setFile f (lost (k.file f))).begun := .refl begun
      have h : Midway [((k.file f).ip, k.inum (k.file f).ip)] [] k.volume
          (lower (k.setFile f (lost (k.file f))) (k.file f).ip).begun
          (k.setFile f (lost (k.file f))).begun := first.lower (ref opens)
      have fit : Fit n start [((k.file f).ip, k.inum (k.file f).ip)] k.volume (lower k (k.file f).ip).fs :=
        steady.fit.lower (ref opens)
      refine beginOp_ends ((h.put (fit.congr rfl rfl) List.not_mem_nil).bind fun _ k₁ dropped => ?_)
      obtain ⟨v, h, fit', trees, -⟩ := dropped
      have finished := endOp_ends (m := fun _ => (pure () : SysM Unit)) (E := Full)
        (Q := fun _ k' => ∃ v, Midway [] [] v
        (lower (k.setFile f (lost (k.file f))) (k.file f).ip) k' ∧
        Fit n start [] v (lower k (k.file f).ip).fs ∧ tree v = tree k.volume)
        h fun k₂ h => Ends.pure ⟨v, h, fit'.congr rfl rfl, trees⟩
      exact finished
    cases kind : (k.file f).type with
    | pipe => exact Ends.modify (.inl ⟨.inr (not_onInode (.inl kind)), _, rfl⟩)
    | none => exact Ends.pure (.inl ⟨.inr (not_onInode (.inr kind)), k.pipecloses, rfl⟩)
    | inode => exact (shut (.inl kind)).mono fun _ _ closed => .inr ⟨one, .inl kind, closed⟩
    | device => exact (shut (.inr kind)).mono fun _ _ closed => .inr ⟨one, .inr kind, closed⟩

theorem lost_fields (used : 0 < file.ref) : (lost file).ref + 1 = file.ref ∧
    ((lost file).ref = 0 ↔ file.ref = 1) ∧
    (1 < file.ref → (lost file).type = file.type) ∧ (file.ref = 1 → (lost file).type = .none) ∧
    (lost file).ip = file.ip ∧
    (lost file).writable = file.writable := by
  unfold lost
  by_cases many : 1 < file.ref
  · rw [if_pos many]
    refine ⟨?_, ?_, fun _ => rfl, fun one => by omega, rfl, rfl⟩
    all_goals
      dsimp only
      omega
  · rw [if_neg many]
    refine ⟨?_, ?_, fun wrong => absurd wrong many, fun _ => rfl, rfl, rfl⟩
    all_goals
      dsimp only
      omega

/-- A descriptor has been closed. -/
theorem closed_keeps (sound : Sound n start ⟨k, live⟩) (alive : live p = true)
    (here : (k.proc p).ofile fd = some f)
    (ends : ((1 < (k.file f).ref ∨ ¬OnInode (k.file f)) ∧
      ∃ l, k' = { store k f (lost (k.file f)) p fd none with pipecloses := l }) ∨
      (k.file f).ref = 1 ∧ OnInode (k.file f) ∧
      ∃ v, Midway [] [] v (lower (store k f (lost (k.file f)) p fd none) (k.file f).ip) k' ∧
        Fit n start [] v (lower k (k.file f).ip).fs ∧ tree v = tree k.volume) : Keeps n start k live k' := by
  have owned : Owned n live [] k.volume k := sound.owned
  have used := owned.counted.used here
  obtain ⟨ref, zero, same, shut, ip, writable⟩ := lost_fields used
  have closed := owned.counted.closed (f := f)
  have counted : Counted (store k f (lost (k.file f)) p fd none) := by
    refine owned.counted.store (fun g there => Option.some.inj (there.symm.trans here))
      (fun g wrong => absurd wrong.symm (Option.some_ne_none g)) ?_ ?_
    · rw [here, points_self, points_none, ref]
      rfl
    · rw [zero]
      by_cases many : 1 < (k.file f).ref
      · rw [same many]
        refine ⟨fun one => by omega, fun none => ?_⟩
        have unused := closed.mpr none
        omega
      · have one : (k.file f).ref = 1 := by omega
        exact ⟨fun _ => shut one, fun _ => one⟩
  have dead (q : ProcId) (gone : live q = false) (e : Fin NOFILE) :
    ((store k f (lost (k.file f)) p fd none).proc q).ofile e = none :=
    sound.stored alive gone e
  rcases ends with ⟨left, l, rfl⟩ | ⟨one, opens, v, h, fit, trees⟩
  · have holds (b : Namei.Slot) : fileHolds b (lost (k.file f)) = fileHolds b (k.file f) := by
      by_cases many : 1 < (k.file f).ref
      · refine fileHolds_congr ?_ ip
        unfold OnInode
        rw [same many]
      · have one : (k.file f).ref = 1 := by omega
        rw [fileHolds_none (shut one)]
        exact (if_neg fun both => left.resolve_left many both.1).symm
    have o := owned.stored counted holds fun opens writes => by
      by_cases many : 1 < (k.file f).ref
      · unfold OnInode at opens ⊢
        rw [same many] at opens
        exact ⟨opens, writable ▸ writes, ip⟩
      · have one : (k.file f).ref = 1 := by omega
        exact absurd opens (not_onInode (.inr (shut one)))
    exact ⟨⟨sound.small, sound.steady.congr rfl rfl, o.congr ⟨rfl, rfl⟩ rfl rfl rfl fun _ =>
      ⟨rfl, rfl, rfl, rfl⟩, dead _⟩, rfl⟩
  · have o : Owned n live [] k.volume (lower (store k f (lost (k.file f)) p fd none) (k.file f).ip) := by
      have counted' : Counted (lower (store k f (lost (k.file f)) p fd none) (k.file f).ip) :=
        ⟨counted.refs, counted.closed⟩
      have cwds (q : ProcId) : ((store k f (lost (k.file f)) p fd none).proc q).cwd = (k.proc q).cwd :=
        store_proc q
      refine owned.lower counted' ⟨rfl, rfl⟩ rfl rfl (fun c => ?_) (fun {q} alive => ⟨alive, cwds q⟩)
        fun {g} opens writes => ?_
      · have change : holders live (store k f (lost (k.file f)) p fd none) c + _ = _ := holders_store c
        have zero : fileHolds c (lost (k.file f)) = 0 := fileHolds_none (shut one)
        have own : fileHolds c (k.file f) = if (k.file f).ip = c then 1 else 0 := fileHolds_of opens
        rw [zero, own, Nat.add_zero] at change
        exact change
      · by_cases this : g = f
        · subst this
          have self : (lower (store k g (lost (k.file g)) p fd none) (k.file g).ip).file g =
            lost (k.file g) := update_self ..
          rw [self] at opens
          exact absurd opens (not_onInode (.inr (shut one)))
        · have other : (lower (store k f (lost (k.file f)) p fd none) (k.file f).ip).file g = k.file g :=
            update_of_ne this ..
          rw [other] at opens writes ⊢
          exact ⟨opens, writes, rfl⟩
    exact ⟨.settle sound.small o.any h (fit.congr rfl rfl) dead, by rw [h.volume, trees]⟩

theorem setFd_ends {Q : Unit → Kernel → Prop} (holds : Q () (cleared k fd)) : Ends (setFd fd none) k E Q :=
  Ends.modify holds

theorem cleared_fs (k : Kernel) (fd : Fin NOFILE) : (cleared k fd).fs = k.fs := by
  unfold cleared Kernel.fs
  dsimp only
  rw [update_self]

theorem Midway.cleared (h : Midway held locks v k₀ k) (fd : Fin NOFILE) :
    Midway held locks v (cleared k₀ fd) (cleared k fd) := by
  have during : During held locks v (Links.cleared k₀ fd).fs (Links.cleared k fd).fs := by
    rw [cleared_fs, cleared_fs]
    exact h.during
  have proc : (Links.cleared k fd).proc = (Links.cleared k₀ fd).proc := by
    show update k.proc k.myproc _ = update k₀.proc k₀.myproc _
    rw [h.rest.myproc, h.rest.proc]
  exact ⟨during, { h.rest with proc }⟩

theorem sysClose_ends {a : Int} (sound : Sound n start ⟨k, live⟩) (alive : live k.myproc = true) :
    Ends (sysClose a) k Full fun _ k' => Keeps n start k live k' := by
  refine argfd_ends.bind fun r k' found => ?_
  obtain ⟨rfl, found⟩ := found
  rcases r with _ | ⟨fd, f⟩
  · exact Ends.pure sound.keeps
  have here := found fd f rfl
  have used := sound.owned.counted.used here
  have steady : Steady n start (cleared k' fd).fs := sound.steady.congr rfl rfl
  refine Ends.seq (setFd_ends ?_)
  refine (fileclose_drops steady used fun opens => sound.referenced opens).bind fun _ k₂ ends =>
    Ends.pure (closed_keeps sound alive here
    (ends.imp (fun left => ?_) fun right => ?_))
  · obtain ⟨left, l, rfl⟩ := left
    exact ⟨left, l, rfl⟩
  · obtain ⟨one, opens, v, h, fit, trees⟩ := right
    exact ⟨one, opens, v, h, fit.congr rfl rfl, trees⟩

/-- A round of the loop of `exit` over the open files. -/
theorem closeFile_ends (sound : Sound n start ⟨k, live⟩) (alive : live k.myproc = true) :
    Ends (closeFile fd) k Full fun _ k' =>
    Keeps n start k live k' ∧ k'.myproc = k.myproc ∧ (k'.proc k.myproc).cwd = (k.proc k.myproc).cwd ∧
      (k'.proc k.myproc).ofile fd = none ∧
    ∀ e, (k.proc k.myproc).ofile e = none → (k'.proc k.myproc).ofile e = none := by
  unfold closeFile
  refine Ends.bind_run (rfl : (get : SysM Kernel) k = .ok (k, k)) ?_
  cases here : (k.proc k.myproc).ofile fd with
  | none => exact Ends.pure ⟨sound.keeps, rfl, rfl, here, fun _ => id⟩
  | some f =>
    have used := sound.owned.counted.used here
    refine (fileclose_drops sound.steady used fun opens => sound.referenced opens).bind
      fun _ k₁ ends => setFd_ends ?_
    have rest : k₁.myproc = k.myproc ∧ k₁.proc = k.proc := by
      rcases ends with ⟨-, l, rfl⟩ | ⟨-, -, v, h, -, -⟩
      · exact ⟨rfl, rfl⟩
      · exact ⟨h.rest.myproc, h.rest.proc⟩
    refine ⟨closed_keeps sound alive here (ends.imp (fun left => ?_) fun right => ?_), rest.1, ?_,
      ?_, fun e closed => ?_⟩
    · obtain ⟨left, l, rfl⟩ := left
      exact ⟨left, l, rfl⟩
    · obtain ⟨one, opens, v, h, fit, trees⟩ := right
      exact ⟨one, opens, v, h.cleared fd, fit, trees⟩
    · show (update k₁.proc k₁.myproc _ k.myproc).cwd = _
      rw [rest.1, rest.2, update_self]
    · show (update k₁.proc k₁.myproc _ k.myproc).ofile fd = none
      rw [rest.1, rest.2, update_self]
      exact update_self ..
    · show (update k₁.proc k₁.myproc _ k.myproc).ofile e = none
      rw [rest.1, rest.2, update_self]
      show update (k.proc k.myproc).ofile fd none e = none
      by_cases same : e = fd
      · rw [same, update_self]
      · rw [update_of_ne same, closed]

/-! ### exit and fork -/

theorem exitFiles_ends (sound : Sound n start ⟨k, live⟩) (alive : live k.myproc = true)
    (other : k.myproc ≠ initproc) :
    Ends exitFiles k Full fun _ k' => Keeps n start k (update live k.myproc false) k' := by
  unfold exitFiles
  refine Ends.bind_run (rfl : (get : SysM Kernel) k = .ok (k, k))
    (Ends.ite (fun init => absurd init other) fun _ => ?_)
  refine (Ends.forM_list (P := fun l k' => Keeps n start k live k' ∧ k'.myproc = k.myproc ∧
    (k'.proc k.myproc).cwd = (k.proc k.myproc).cwd ∧
    ∀ fd, fd ∉ l → (k'.proc k.myproc).ofile fd = none) ⟨sound.keeps, rfl, rfl, fun fd out =>
    absurd (List.mem_finRange fd) out⟩
    fun fd l k₁ before => ?_).bind fun _ k₁ closed => ?_
  · obtain ⟨keeps, mine, cwd, closed⟩ := before
    refine (closeFile_ends keeps.1 (mine ▸ alive)).mono fun _ k₂ after => ?_
    obtain ⟨keeps', mine', cwd', here, kept⟩ := after
    rw [mine] at mine' cwd' here kept
    refine ⟨⟨keeps'.1, keeps'.2.trans keeps.2⟩, mine', cwd'.trans cwd, fun e out => ?_⟩
    by_cases same : e = fd
    · rw [same, here]
    · exact kept e (closed e fun member => (List.mem_cons.mp member).elim same out)
  · obtain ⟨keeps, mine, cwd, closed⟩ := closed
    have sound := keeps.1
    have used : 0 < (k₁.inode (k.proc k.myproc).cwd).ref := by
      have owned := holders_cwd (k := k₁) (p := k.myproc) alive
      rw [sound.shares, cwd] at owned
      exact owned
    have begun : Steady n start k₁.begun.fs := sound.steady.congr rfl rfl
    have first : Midway [] [] k₁.volume k₁.begun k₁.begun := .refl begun
    have h : Midway [((k.proc k.myproc).cwd, k₁.inum (k.proc k.myproc).cwd)] [] k₁.volume
      (lower k₁ (k.proc k.myproc).cwd).begun k₁.begun :=
      first.lower used
    have fit : Fit n start [((k.proc k.myproc).cwd, k₁.inum (k.proc k.myproc).cwd)] k₁.volume
      (lower k₁ (k.proc k.myproc).cwd).fs :=
      sound.steady.fit.lower used
    have o : Owned n (update live k.myproc false) [] k₁.volume (lower k₁ (k.proc k.myproc).cwd) :=
      cwd ▸ sound.owned.leave alive
    refine beginOp_ends ((h.put (fit.congr rfl rfl) List.not_mem_nil).bind fun _ k₂ dropped => ?_)
    obtain ⟨v, h, fit', trees, -⟩ := dropped
    refine endOp_ends (m := fun _ => (pure () : SysM Unit)) h fun k₃ h => Ends.pure
      ⟨.settle sound.small o.any h (fit'.congr rfl rfl) fun q gone e => ?_, ?_⟩
    · by_cases same : q = k.myproc
      · rw [same]
        exact closed e List.not_mem_nil
      · rw [update_of_ne same] at gone
        exact sound.dead gone e
    · rw [h.volume, trees, keeps.2]

/-- Some of the descriptors of a process have been given to a new one. -/
structure Forking (n start : Nat) (live : ProcId → Bool) (np : ProcId) (k₀ : Kernel) (l : List (Fin NOFILE))
    (k : Kernel) : Prop where
  steady : Steady n start k.fs
  owned : Owned n live [] k.volume k
  mine : k.myproc = k₀.myproc
  others {q : ProcId} : q ≠ np → k.proc q = k₀.proc q
  rest {fd : Fin NOFILE} : fd ∈ l → (k.proc np).ofile fd = none
  once : l.Nodup
  volume : k.volume = k₀.volume

theorem dupFile_ends {l : List (Fin NOFILE)} (h : Forking n start live np k₀ (fd :: l) k) :
    Ends (dupFile np fd) k Full fun _ k' => Forking n start live np k₀ l k' := by
  obtain ⟨out, once⟩ := List.nodup_cons.mp h.once
  unfold dupFile
  refine Ends.bind_run (rfl : (get : SysM Kernel) k = .ok (k, k)) ?_
  cases here : (k.proc k.myproc).ofile fd with
  | none => exact Ends.pure { h with rest := fun member => h.rest (List.mem_cons_of_mem _ member), once }
  | some f =>
    have used := h.owned.counted.used here
    have free := h.rest (List.mem_cons_self ..)
    refine Ends.bind_run (filedup_run used) (Ends.modify ?_)
    have shape {q : ProcId} (other : q ≠ np) :
      (store k f { k.file f with ref := (k.file f).ref + 1 } np fd (some f)).proc q = k.proc q :=
      update_of_ne other ..
    refine ⟨h.steady.congr rfl rfl, h.owned.dup used free, h.mine, fun other => (shape other).trans
      (h.others other), fun {e} member => ?_, once, h.volume⟩
    show (update k.proc np _ np).ofile e = none
    rw [update_self]
    show update (k.proc np).ofile fd (some f) e = none
    have distinct : e ≠ fd := by
      rintro rfl
      exact out member
    rw [update_of_ne distinct]
    exact h.rest (List.mem_cons_of_mem _ member)

/-- Another process gets a directory. -/
theorem Midway.entered (h : Midway held locks v k₀ k) (apart : k₀.myproc ≠ np) (ip : Namei.Slot) :
    Midway held locks v (Links.entered k₀ np ip) (Links.entered k np ip) := by
  have same (k : Kernel) (apart : k.myproc ≠ np) : (Links.entered k np ip).fs = k.fs := by
    unfold Links.entered Kernel.fs
    dsimp only
    rw [update_of_ne apart]
  have during : During held locks v (Links.entered k₀ np ip).fs (Links.entered k np ip).fs := by
    rw [same k₀ apart, same k (h.rest.myproc ▸ apart)]
    exact h.during
  have proc : (Links.entered k np ip).proc = (Links.entered k₀ np ip).proc := by
    show update k.proc np _ = update k₀.proc np _
    rw [h.rest.proc]
  exact ⟨during, { h.rest with proc }⟩

theorem Midway.idup (h : Midway held [] v k₀ k) (used : 0 < (k.inode ip).ref) :
    Ends (Sysfile.onFs (Namei.idup ip)) k E fun r k' => r = ip ∧
    Midway ((ip, k.inum ip) :: held) [] v k₀ k' := by
  refine (h.onFs (idup_during h.during used) fun _ _ both => both.2.cwd.trans h.during.cwd.symm).mono
    fun _ _ both => ?_
  exact ⟨both.1.1, both.2 _ _ _ both.1.2⟩

theorem forkFiles_ends (sound : Sound n start ⟨k, live⟩) (alive : live k.myproc = true)
    (new : live np = false) :
    Ends (forkFiles np) k Full fun _ k' => Keeps n start k (update live np true) k' := by
  have apart : k.myproc ≠ np := by
    rintro same
    rw [← same, alive] at new
    exact Bool.noConfusion new
  unfold forkFiles
  refine (Ends.forM_list (P := fun l k' => Forking n start live np k l k') ⟨sound.steady, sound.owned,
    rfl, fun _ => rfl, fun _ =>
    sound.dead new _, List.nodup_finRange _, rfl⟩ fun fd l k₁ h => dupFile_ends h).bind fun _ k₁ h => ?_
  refine Ends.bind_run (rfl : (get : SysM Kernel) k₁ = .ok (k₁, k₁)) ?_
  have used : 0 < (k₁.inode (k₁.proc k₁.myproc).cwd).ref := by
    have owned := holders_cwd (k := k₁) (p := k.myproc) alive
    rwa [h.owned.count, ← h.mine] at owned
  have dir : (k₁.volume.inode (k₁.inum (k₁.proc k₁.myproc).cwd)).type = T_DIR := by
    rw [h.mine]
    exact (h.owned.cwd alive).holds
  refine ((Midway.refl h.steady).idup used).bind fun ip k₂ both => ?_
  obtain ⟨rfl, m⟩ := both
  refine Ends.modify ?_
  have fit : Fit n start [((k₁.proc k₁.myproc).cwd, k₁.inum (k₁.proc k₁.myproc).cwd)] k₁.volume
    (entered k₁ np (k₁.proc k₁.myproc).cwd).fs :=
    (h.steady.fit.take (h.steady.used used)).congr rfl rfl
  refine ⟨.settle sound.small (h.owned.enter new dir) (m.entered (h.mine ▸ apart) _) fit
    fun q gone e => ?_, ?_⟩
  · have other : q ≠ np := by
      rintro rfl
      rw [update_self] at gone
      exact Bool.noConfusion gone
    rw [update_of_ne other] at gone
    show (update k₁.proc np _ q).ofile e = none
    rw [update_of_ne other, h.others other]
    exact sound.dead gone e
  · show tree k₂.volume = _
    rw [m.volume, h.volume]

/-! ### Calls that work on names -/

/-- What a call does to the tree of directories, by its result. -/
def Acted (k : Kernel) (r : Int) (t : Hierarchy Nat Name) : Call → Prop
  | .sysLink old new => r = -1 ∧ t = tree k.volume ∨
    r = 0 ∧ ∃ p q d i, old = some p ∧ new = some q ∧ leads k false p = some i ∧
    leads k true q = some d ∧ (tree k.volume).above d ≠ none ∧ (tree k.volume).above i = none ∧
    (tree k.volume).entry d (lastName q.val) = none ∧
    t = (tree k.volume).link d (lastName q.val) i
  | .sysUnlink path => r = -1 ∧ t = tree k.volume ∨ r = 0 ∧ ∃ p d i, path = some p ∧ leads k true p = some d ∧
    (tree k.volume).entry d (lastName p.val) = some i ∧ Cut (tree k.volume) d (lastName p.val) i t
  | .sysOpen path omode => t = tree k.volume ∧ (r ≠ -1 → ∃ p i, path = some p ∧ leads k false p = some i) ∨
    omode &&& O_CREATE ≠ 0 ∧ ∃ p, path = some p ∧ Adds k T_FILE p t
  | .sysMkdir path => r = -1 ∧ t = tree k.volume ∨ r = 0 ∧ ∃ p, path = some p ∧ Adds k T_DIR p t
  | .sysMknod path _ _ => r = -1 ∧ t = tree k.volume ∨ r = 0 ∧ ∃ p, path = some p ∧ Adds k T_DEVICE p t
  | .sysChdir _ => t = tree k.volume

/-- The paths of a call. -/
def paths : Call → List (Option Path)
  | .sysLink old new => [old, new]
  | .sysUnlink path | .sysOpen path _ | .sysMkdir path | .sysMknod path _ _ | .sysChdir path => [path]

theorem Sound.settled {t : Hierarchy Nat Name} (sound : Sound n start ⟨k, live⟩)
    (settled : Settled n start [] k k' t) :
    Sound n start ⟨k', live⟩ ∧ tree k'.volume = t := by
  obtain ⟨v, h, fit, trees⟩ := settled
  have o : Owned n live [] k.volume k := sound.owned
  exact ⟨.settle sound.small o.any h fit fun _ gone => sound.dead gone, h.volume ▸ trees⟩

theorem sysOpen_sound (sound : Sound n start ⟨k, live⟩) (alive : live k.myproc = true) {path : Option Path}
    {omode : BitVec 32} {r : Int}
    (opened : Opened n start k path omode r k') : Sound n start ⟨k', live⟩ ∧
    Acted k r (tree k'.volume) (.sysOpen path omode) := by
  rcases opened with ⟨failed, t, settled, made⟩ | ⟨f, fd, file, ip, i, v, -, unused, free, ref,
    kind, here, writes, h, fit, made⟩
  · obtain ⟨sound', rfl⟩ := sound.settled settled
    exact ⟨sound', made.imp (fun same => ⟨same, fun ok => absurd failed ok⟩) id⟩
  · have o : Owned n live [] k.volume k := sound.owned
    have fit' : Fit n start [(ip, i)] v (Links.opened k f fd file).fs := fit.congr rfl rfl
    refine ⟨.settle sound.small (o.opened unused free ref kind here writes) h fit' fun q gone e => ?_, ?_⟩
    · exact sound.stored (f := f) alive gone e
    · rw [h.volume]
      refine made.imp (fun both => ⟨both.1, fun _ => ?_⟩) id
      obtain ⟨p, same, found⟩ := both.2
      exact ⟨p, i, same, found⟩

theorem call_ends {c : Call} (sound : Sound n start ⟨k, live⟩) (alive : live k.myproc = true)
    (few : ∀ i, (k.volume.inode i).nlink < 32767)
    (starts : ∀ path ∈ paths c, Starts k path) : Ends c.run k Full fun r k' => Sound n start ⟨k', live⟩ ∧
    Acted k r (tree k'.volume) c := by
  have caller := sound.caller alive few
  cases c with
  | sysLink old new =>
    refine (sysLink_ends caller (starts old (List.mem_cons_self ..))
      (starts new (List.mem_cons_of_mem _ (List.mem_cons_self ..)))).mono
      fun r k' done => ?_
    obtain ⟨t, settled, acted⟩ := done
    obtain ⟨sound', rfl⟩ := sound.settled settled
    exact ⟨sound', acted⟩
  | sysUnlink path =>
    refine (sysUnlink_ends caller (starts path (List.mem_cons_self ..))).mono fun r k' done => ?_
    obtain ⟨t, settled, acted⟩ := done
    obtain ⟨sound', rfl⟩ := sound.settled settled
    exact ⟨sound', acted⟩
  | sysOpen path omode =>
    refine (sysOpen_ends caller (fun f => sound.owned.counted.closed.mp)
      (starts path (List.mem_cons_self ..)) omode).mono fun r k' opened => ?_
    exact sysOpen_sound sound alive opened
  | sysMkdir path =>
    refine (sysMkdir_ends caller (starts path (List.mem_cons_self ..))).mono fun r k' done => ?_
    obtain ⟨t, settled, acted⟩ := done
    obtain ⟨sound', rfl⟩ := sound.settled settled
    exact ⟨sound', acted⟩
  | sysMknod path major minor =>
    refine (sysMknod_ends caller (starts path (List.mem_cons_self ..)) major minor).mono fun r k' done => ?_
    obtain ⟨t, settled, acted⟩ := done
    obtain ⟨sound', rfl⟩ := sound.settled settled
    exact ⟨sound', acted⟩
  | sysChdir path =>
    refine (sysChdir_ends caller (starts path (List.mem_cons_self ..))).mono fun r k' done => ?_
    rcases done with ⟨-, settled⟩ | ⟨-, ip, i, v, dir, h, fit, trees⟩
    · exact sound.settled settled
    · have o : Owned n live [] k.volume k := sound.owned
      have gone : update live k.myproc false k.myproc = false := update_self ..
      have o' : Owned n (update (update live k.myproc false) k.myproc true) [(ip, i)] v
        (entered _ k.myproc ip) := (o.leave alive).enter gone dir
      have same : update (update live k.myproc false) k.myproc true = live := by
        rw [update_idem, ← alive, update_eq_self]
      rw [same] at o'
      refine ⟨.settle sound.small o' h (fit.congr rfl rfl) fun q gone e => ?_, ?_⟩
      · show (update k.proc k.myproc _ q).ofile e = none
        by_cases here : q = k.myproc
        · rw [here, update_self]
          exact sound.dead (here ▸ gone) e
        · rw [update_of_ne here]
          exact sound.dead gone e
      · rw [h.volume]
        exact trees

end Events

end Xv6.Sysfile.Links
