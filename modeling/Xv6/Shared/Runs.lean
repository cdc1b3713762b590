import Xv6.Shared.Machine
import Xv6.Content.Holes

namespace Xv6.Shared
open Content Threads Function

/-- The file has this byte at a place. -/
def Has (ino : Nat) (vol : Volume) (x : Nat) (b : UInt8) : Prop :=
  x / BSIZE < MAXFILE ∧ vol.slot ino (dataSlot (x / BSIZE)) ≠ 0 ∧ vol.file ino x = b

/-- What the file has up to a place it keeps. -/
def Keeps (ino limit : Nat) (vol vol' : Volume) : Prop := ∀ x < limit, ∀ b, Has ino vol x b → Has ino vol' x b

/-- An event fits what happened before: a chunk starts where the others end and goes on in the buffer of its
call, and a call returns its count if it has stored all its bytes, and else -1. -/
def Fits (writable : Bool) (first : Nat) : Event → List Event → Prop
  | .began .., _ => True
  | .chunk p start offset count, earlier =>
      start = first + total earlier ∧ offset = given p earlier ∧ ((offset + count : Nat) : Int) ≤
        (asked p earlier).2
  | .returned p r, earlier =>
      r = if writable = true ∧ (given p earlier : Int) = (asked p earlier).2 then (asked p earlier).2 else -1

/-- Every event fits the ones before it. -/
def Fitting (writable : Bool) (first : Nat) : List Event → Prop
  | [] => True
  | e :: earlier => Fits writable first e earlier ∧ Fitting writable first earlier

/-- The file has the bytes of every chunk. -/
def Intact (ino : Nat) (vol : Volume) : List Event → Prop
  | [] => True
  | .chunk p start offset count :: earlier =>
      (∀ x < count, Has ino vol (start + x) ((asked p earlier).1 (offset + x))) ∧ Intact ino vol earlier
  | _ :: earlier => Intact ino vol earlier

/-- How many bytes of the chunk that is being stored have been stored. -/
def FileState.count (s : FileState) : Nat :=
  match s.writing with
  | none => 0
  | some w => w.count

structure FileInv (writable : Bool) (ino first : Nat) (s : FileState) : Prop where
  cons : s.vol.Consistent
  counted : s.off + s.count = first + s.stored
  logged : s.stored = total s.log + s.count
  fitting : Fitting writable first s.log
  intact : Intact ino s.vol s.log
  writing : ∀ w, s.writing = some w → w.start = s.off ∧
    ∀ x < w.count, Has ino s.vol (w.start + x) (w.src (w.offset + x))
  free : s.holder = none → s.writing = none ∧ (s.stored = 0 ∨ s.off ≤ (s.vol.inode ino).size)

section Histories

variable {writable : Bool} {ino first limit p q : Nat} {vol vol' : Volume} {s s' : FileState}
  {e : Event} {log earlier later : List Event}

theorem total_chunk (p start offset count : Nat) (earlier : List Event) :
    total (.chunk p start offset count :: earlier) = total earlier + count := by
  simp [total, chunks]

theorem Fitting.fits (fitting : Fitting writable first (later ++ e :: earlier)) :
    Fits writable first e earlier := by
  induction later with
  | nil => exact fitting.1
  | cons head later ih => exact ih fitting.2

theorem Intact.keep (intact : Intact ino vol log) (fitting : Fitting writable first log)
    (keeps : Keeps ino (first + total log) vol vol') : Intact ino vol' log := by
  induction log with
  | nil => trivial
  | cons e earlier ih =>
    cases e with
    | began => exact ih intact fitting.2 keeps
    | returned => exact ih intact fitting.2 keeps
    | chunk p start offset count =>
      rw [total_chunk] at keeps
      have start' : start = first + total earlier := fitting.1.1
      refine ⟨fun x small => keeps _ (by omega) _ (intact.1 x small), ih intact.2 fitting.2 fun x small => ?_⟩
      exact keeps x (by omega)

/-- The file system changes, but not what has been stored. -/
theorem FileInv.change (inv : FileInv writable ino first s) (cons : vol.Consistent)
    (keeps : Keeps ino (first + s.stored) s.vol vol) (size : (s.vol.inode ino).size ≤ (vol.inode ino).size) :
    FileInv writable ino first { s with vol } := by
  have counted := inv.counted
  have logged := inv.logged
  refine ⟨cons, counted, logged, inv.fitting, inv.intact.keep inv.fitting fun x small => keeps x (by omega),
    fun w here => ?_, fun free => ?_⟩
  · obtain ⟨start, bytes⟩ := inv.writing w here
    have count : s.count = w.count := by
      unfold FileState.count
      rw [show s.writing = some w from here]
    exact ⟨start, fun x small => keeps _ (by omega) _ (bytes x small)⟩
  · obtain ⟨none, covered⟩ := inv.free free
    exact ⟨none, covered.imp id fun inside => Nat.le_trans inside size⟩

/-- The process that an event is about. -/
def Event.of : Event → Nat
  | .began p _ _ => p
  | .chunk p _ _ _ => p
  | .returned p _ => p

theorem asked_other (other : e.of ≠ p) : asked p (e :: log) = asked p log := by
  cases e with
  | began q src n => exact if_neg other
  | _ => rfl

theorem given_other (other : e.of ≠ p) : given p (e :: log) = given p log := by
  cases e with
  | began q src n => exact if_neg other
  | chunk q start offset count => exact if_neg other
  | returned => rfl

end Histories

/-! ## The outline -/

/-- What the holder of the lock knows: `f->off`, the number of bytes stored, the size, the chunk that it
stores, and where the blocks of the inode are. -/
structure Held where
  off : Nat
  stored : Nat
  size : Nat
  writing : Option Writing
  slots : Nat → Nat

/-- A process knows besides what its call has asked for and what it has stored of it. -/
@[ext] structure FileView where
  held : Option Held
  asked : Bytes × Int
  given : Nat

def FileState.summary (ino : Nat) (s : FileState) : Held where
  off := s.off
  stored := s.stored
  size := (s.vol.inode ino).size
  writing := s.writing
  slots bn := if bn < MAXFILE then s.vol.slot ino (dataSlot bn) else 0

def FileState.view (ino p : Nat) (s : FileState) : FileView where
  held := if s.holder = some p then some (s.summary ino) else none
  asked := asked p s.log
  given := given p s.log

def fileOutline (writable : Bool) (ino first : Nat) : Outline Nat FileState FileView FileAct where
  inv := FileInv writable ino first
  view := FileState.view ino
  guar t before after := ∀ other, other ≠ t → after.view ino other = before.view ino other
  allowed := fileAllowed ino first
  owes _ _ _ := True
  mayPanic _ _ _ _ := False

theorem fileOutline_isolated (writable : Bool) (ino first : Nat) :
    (fileOutline writable ino first).Isolated :=
  fun _ _ _ h => h

section Rules

variable {writable : Bool} {ino first t q : Nat} {s s' : FileState} {h : Held} {a : Bytes × Int}
  {g : Nat} {v : FileView}

/-- What another process relies on. -/
theorem FileState.view_congr (held : s'.holder = some q ↔ s.holder = some q)
    (same : s.holder = some q → s'.summary ino = s.summary ino)
    (log : s'.log = s.log ∨ ∃ e, s'.log = e :: s.log ∧ e.of ≠ q) : s'.view ino q = s.view ino q := by
  refine FileView.ext ?_ ?_ ?_
  · by_cases mine : s.holder = some q
    · exact (if_pos (held.mpr mine)).trans ((congrArg some (same mine)).trans (if_pos mine).symm)
    · exact (if_neg (mt held.mp mine)).trans (if_neg mine).symm
  · rcases log with same | ⟨e, same, apart⟩
    · exact congrArg (Shared.asked q) same
    · exact (congrArg (Shared.asked q) same).trans (asked_other apart)
  · rcases log with same | ⟨e, same, apart⟩
    · exact congrArg (Shared.given q) same
    · exact (congrArg (Shared.given q) same).trans (given_other apart)

/-- The view shows what is under the lock. -/
theorem FileState.view_held (view : s.view ino t = ⟨some h, a, g⟩) :
    s.holder = some t ∧ s.summary ino = h ∧ asked t s.log = a ∧ given t s.log = g := by
  have held : (if s.holder = some t then some (s.summary ino) else none) = some h :=
    congrArg FileView.held view
  split at held
  next mine => exact ⟨mine, Option.some.inj held, congrArg FileView.asked view, congrArg FileView.given view⟩
  next => cases held

/-- The rule for a step under the lock that is no event. -/
theorem held_wp {act : FileAct} {Q : act.Resp → FileView → Prop}
    (step : ∀ s k, FileInv writable ino first s → s.holder = some t → s.summary ino = h → ∃ answer s',
      fileMachine ino t k act s = .ok answer s' ∧ FileInv writable ino first s' ∧
      s'.holder = s.holder ∧ s'.log = s.log ∧
      Q answer ⟨some (s'.summary ino), a, g⟩) :
    wp (fileMachine ino) (fileOutline writable ino first) t act.run Q ⟨some h, a, g⟩ := by
  refine wp_step fun s k inv view => ⟨trivial, fun _ => ?_⟩
  obtain ⟨mine, known, asked, given⟩ := FileState.view_held view
  obtain ⟨answer, s', run, inv', holder, log, post⟩ := step s k inv mine known
  rw [run]
  refine ⟨inv', fun other apart => ?_, ?_⟩
  · have not : s.holder ≠ some other := by
      rw [mine]
      exact fun same => apart (Option.some.inj same).symm
    exact FileState.view_congr (by rw [holder]) (fun same => absurd same not) (.inl log)
  · have view' : s'.view ino t = ⟨some (s'.summary ino), a, g⟩ := by
      refine FileView.ext (if_pos (holder.trans mine)) ?_ ?_
      · exact (congrArg (Shared.asked t) log).trans asked
      · exact (congrArg (Shared.given t) log).trans given
    show Q answer (s'.view ino t)
    rw [view']
    exact post

theorem size_wp : wp (fileMachine ino) (fileOutline writable ino first) t FileAct.size.run
    (fun size v => size ≤ MAXFILE * BSIZE ∧ v = ⟨some h, a, g⟩) ⟨some h, a, g⟩ :=
  held_wp fun s _ inv _ known => ⟨_, s, rfl, inv, rfl, rfl, inv.cons.sizes ino, by rw [known]⟩

theorem offset_wp (src : Bytes) (i : Nat) (none : h.writing = none) :
    wp (fileMachine ino) (fileOutline writable ino first) t (FileAct.offset src i).run
      (fun off v => off = h.off ∧ v = ⟨some { h with writing := some ⟨h.off, i, 0, src⟩ }, a, g⟩)
      ⟨some h, a, g⟩ := by
  refine held_wp fun s _ inv mine known => ⟨_, _, rfl, ?_, rfl, rfl, ?_⟩
  · have zero : s.count = 0 := by
      unfold FileState.count
      rw [show s.writing = .none from (congrArg Held.writing known).trans none]
    have counted := inv.counted
    have logged := inv.logged
    rw [zero] at counted logged
    refine ⟨inv.cons, counted, logged, inv.fitting, inv.intact, fun w here => ?_, fun free => ?_⟩
    · cases here
      exact ⟨rfl, fun x small => absurd small (Nat.not_lt_zero x)⟩
    · exact absurd (mine.symm.trans free) (Option.some_ne_none t)
  · subst known
    exact ⟨rfl, rfl⟩

theorem FileInv.changed (inv : FileInv writable ino first s) (known : s.summary ino = h) :
    h.off + s.count = first + h.stored ∧ (∀ w, h.writing = some w → s.count = w.count ∧ w.start = h.off) := by
  subst known
  refine ⟨inv.counted, fun w here => ⟨?_, (inv.writing w here).1⟩⟩
  unfold FileState.count
  rw [show s.writing = some w from here]

/-- `bmap` gives the address of a block of the file, which stays there. -/
theorem bmap_wp {bn : Nat} (small : bn < MAXFILE) :
    wp (fileMachine ino) (fileOutline writable ino first) t (FileAct.bmap bn).run
      (fun addr v => ∃ slots, v = ⟨some { h with slots }, a, g⟩ ∧ (addr ≠ 0 → slots bn = addr))
      ⟨some h, a, g⟩ := by
  refine held_wp fun s _ inv _ known => ?_
  obtain ⟨⟨addr, vol⟩, run, loaded⟩ := Volume.bmap_spec (i := ino) inv.cons small
  have keeps : Keeps ino (first + s.stored) s.vol vol := fun x _ b ⟨inside, present, byte⟩ => by
    refine ⟨inside, ?_, (Volume.file_same loaded.wrote loaded.same inside present).trans byte⟩
    rw [loaded.wrote.slots _ (dataSlot_lt inside) present]
    exact present
  have size : (vol.inode ino).size = (s.vol.inode ino).size := loaded.wrote.fields.2.2
  refine ⟨addr, { s with vol }, ?_, inv.change loaded.cons keeps (Nat.le_of_eq size.symm), rfl, rfl, ?_⟩
  · simp only [fileMachine, run]
  · subst known
    refine ⟨({ s with vol } : FileState).summary ino |>.slots, ?_, fun got => ?_⟩
    · simp only [FileState.summary, size]
    · exact (if_pos small).trans (loaded.result got)

/-- The buffer of a block of the file after a copy into it. -/
def splice (vol : Volume) (addr off k : Nat) (src : Bytes) : Volume :=
  { vol with block := update vol.block addr ((vol.block addr).splice (off % BSIZE) k src) }

theorem splice_spec {vol : Volume} {addr off k : Nat} (src : Bytes) (cons : vol.Consistent) (got : addr ≠ 0)
    (small : off / BSIZE < MAXFILE) (here : vol.slot ino (dataSlot (off / BSIZE)) = addr)
    (fits : k ≤ BSIZE - off % BSIZE) :
    (splice vol addr off k src).Consistent ∧ (∀ j l, (splice vol addr off k src).slot j l = vol.slot j l) ∧
    Keeps ino off vol (splice vol addr off k src) ∧ ∀ x < k, Has ino (splice vol addr off k src)
    (off + x) (src x) := by
  subst here
  obtain ⟨cons', -, slots, -⟩ := Volume.store_spec (splice vol _ off k src) cons small _ rfl rfl rfl rfl
  have file : ∀ x, x / BSIZE < MAXFILE → vol.slot ino (dataSlot (x / BSIZE)) ≠ 0 →
      (splice vol _ off k src).file ino x =
      if x / BSIZE = off / BSIZE ∧ off % BSIZE ≤ x % BSIZE ∧ x % BSIZE < off % BSIZE + k
        then src (x % BSIZE - off % BSIZE) else vol.file ino x := fun x below present =>
    Volume.file_store cons small (fun l => slots ino l) rfl below present
  refine ⟨cons', slots, fun x before b ⟨inside, present, byte⟩ => ?_, fun x below => ?_⟩
  · refine ⟨inside, by rwa [slots], ?_⟩
    rw [file x inside present, if_neg (Volume.round_apart (.inl before))]
    exact byte
  · obtain ⟨block, low, high, distance⟩ :=
      Volume.round_block off fits (Nat.le_add_right off x) (by omega : off + x < off + k)
    refine ⟨by rwa [block], by rwa [block, slots], ?_⟩
    rw [file (off + x) (by rwa [block]) (by rwa [block]), if_pos ⟨block, low, high⟩, distance,
      Nat.add_sub_cancel_left]

theorem FileState.copy_fault {addr off m k : Nat} {src : Bytes} (fault : min k m < m) :
    s.copy addr off m k src = (false, { s with vol := splice s.vol addr off (min k m) src }) := if_pos fault

theorem FileState.copy_all {addr off m k : Nat} {src : Bytes} {w : Writing} (all : min k m = m)
    (writing : s.writing = some w) :
    s.copy addr off m k src = (true, { s with
      vol := (splice s.vol addr off m src).logWrite, stored := s.stored + m, writing := some (w.grow m) }) := by
  unfold FileState.copy
  simp only [all, Nat.lt_irrefl, if_false, writing, Option.map_some]
  rfl

/-- A copy stores the next bytes of the chunk, or none. -/
theorem copy_wp {addr off m : Nat} {src : Bytes} {w : Writing} (writing : h.writing = some w) (got : addr ≠ 0)
    (small : off / BSIZE < MAXFILE) (here : h.slots (off / BSIZE) = addr) (next : off = w.start + w.count)
    (fits : m ≤ BSIZE - off % BSIZE) (bytes : ∀ x < m, src x = w.src (w.offset + (w.count + x))) :
    wp (fileMachine ino) (fileOutline writable ino first) t (FileAct.copy addr off m src).run
      (fun all v => v =
        ⟨some (if all then { h with stored := h.stored + m, writing := some (w.grow m) } else h), a, g⟩)
      ⟨some h, a, g⟩ := by
  refine held_wp fun s k inv mine known => ⟨_, _, rfl, ?_⟩
  obtain ⟨counted, chunk⟩ := inv.changed known
  obtain ⟨count, start⟩ := chunk w writing
  have place : s.vol.slot ino (dataSlot (off / BSIZE)) = addr := by
    rw [← here, ← known]
    exact (if_pos small).symm
  have stored : s.stored = h.stored := congrArg Held.stored known
  obtain ⟨cons, slots, keeps, has⟩ := splice_spec (k := min k m) src inv.cons got small place (by omega)
  have kept : Keeps ino (first + s.stored) s.vol (splice s.vol addr off (min k m) src) :=
    fun x before => keeps x (by omega)
  by_cases fault : min k m < m
  · rw [FileState.copy_fault fault]
    refine ⟨inv.change cons kept (le_refl _), rfl, rfl, ?_⟩
    subst known
    simp only [FileState.summary, slots]
    rfl
  · have all : min k m = m := by omega
    rw [all] at cons slots kept has
    have written : s.writing = some w := (congrArg Held.writing known).trans writing
    rw [FileState.copy_all all written]
    have old := inv.counted
    have logged := inv.logged
    have grown : (⟨(splice s.vol addr off m src).logWrite, s.off, s.holder, s.stored + m,
      some (w.grow m), s.log⟩ :
        FileState).count = s.count + m := by rw [count]; rfl
    refine ⟨⟨cons.congr (fun _ _ _ => rfl) rfl rfl cons.sizes, ?_, ?_, inv.fitting, ?_,
      fun w' same => ?_, fun free => ?_⟩,
      rfl, rfl, ?_⟩
    · rw [grown]
      show s.off + (s.count + m) = first + (s.stored + m)
      omega
    · rw [grown]
      show s.stored + m = total s.log + (s.count + m)
      omega
    · exact inv.intact.keep inv.fitting fun x before b byte => kept x (by omega) b byte
    · obtain rfl : w.grow m = w' := Option.some.inj same
      obtain ⟨first', bytes'⟩ := inv.writing w written
      refine ⟨first', fun x below => ?_⟩
      by_cases before : x < w.count
      · exact kept _ (show w.start + x < first + s.stored by omega) _ (bytes' x before)
      · obtain ⟨y, rfl⟩ := Nat.exists_eq_add_of_le (Nat.le_of_not_lt before)
        have below' : w.count + y < w.count + m := below
        have byte := has y (by omega)
        rw [bytes y (by omega), show off + y = w.start + (w.count + y) by omega] at byte
        exact byte
    · exact absurd (mine.symm.trans free) (Option.some_ne_none t)
    · subst known
      have size : (splice s.vol addr off m src).logWrite.inode = s.vol.inode := rfl
      have slots' : ∀ l, (splice s.vol addr off m src).logWrite.slot ino l = s.vol.slot ino l := slots ino
      simp only [FileState.summary, size, slots', if_true]

theorem setSize_wp {off : Nat} (small : off ≤ MAXFILE * BSIZE) :
    wp (fileMachine ino) (fileOutline writable ino first) t (FileAct.setSize off).run
      (fun _ v => v = ⟨some { h with size := max h.size off }, a, g⟩) ⟨some h, a, g⟩ := by
  refine held_wp fun s _ inv _ known => ⟨_, _, rfl, ?_, rfl, rfl, ?_⟩
  · refine inv.change (Volume.setSize_consistent inv.cons (Nat.max_le.mpr ⟨inv.cons.sizes ino, small⟩)) ?_ ?_
    · rintro x - b ⟨inside, present, byte⟩
      refine ⟨inside, ?_, ?_⟩
      · rwa [Volume.setSize_slot]
      · rwa [Volume.setSize_file]
    · rw [Volume.setSize_size]
      exact Nat.le_max_left ..
  · subst known
    simp only [FileState.summary, Volume.setSize_size, Volume.setSize_slot]

/-- The chunk is done. -/
theorem advance_wp {p i r : Nat} {w : Writing} (writing : h.writing = some w) (mine : p = t)
    (offset : w.offset = i)
    (count : w.count = r) (goes : i = g) (src : w.src = a.1) (fits : ((i + r : Nat) : Int) ≤ a.2)
    (small : h.off + r < 2 ^ 32) :
    wp (fileMachine ino) (fileOutline writable ino first) t (FileAct.advance p i r).run
      (fun _ v => v = ⟨some { h with off := h.off + r, writing := none }, a, g + r⟩) ⟨some h, a, g⟩ := by
  subst mine offset count goes
  refine wp_step fun s k inv view => ⟨trivial, fun _ => ?_⟩
  obtain ⟨mine, known, asked', given'⟩ := FileState.view_held view
  obtain ⟨counted, chunk⟩ := inv.changed known
  obtain ⟨count, start⟩ := chunk w writing
  have off : s.off = h.off := congrArg Held.off known
  have stored : s.stored = h.stored := congrArg Held.stored known
  have next : (s.off + w.count) % 2 ^ 32 = s.off + w.count := Nat.mod_eq_of_lt (by omega)
  have written := inv.writing w ((congrArg Held.writing known).trans writing)
  have logged := inv.logged
  have total' := total_chunk p s.off w.offset w.count s.log
  refine ⟨⟨inv.cons, ?_, ?_, ⟨⟨?_, given'.symm, ?_⟩, inv.fitting⟩, ⟨fun x small => ?_, inv.intact⟩,
    fun w' none => (by cases none),
    fun free => ?_⟩, fun other apart => ?_, ?_⟩
  · show (s.off + w.count) % 2 ^ 32 + 0 = first + s.stored
    omega
  · show s.stored = total (.chunk p s.off w.offset w.count :: s.log) + 0
    omega
  · omega
  · rw [asked']
    exact fits
  · rw [asked', ← src, ← written.1]
    exact written.2 x small
  · exact absurd (mine.symm.trans free) (Option.some_ne_none p)
  · have not : s.holder ≠ some other := by
      rw [mine]
      exact fun same => apart (Option.some.inj same).symm
    exact FileState.view_congr Iff.rfl (fun same => absurd same not)
      (.inr ⟨_, rfl, fun same => apart same.symm⟩)
  · refine FileView.ext ((if_pos mine).trans ?_) ?_ ?_
    · subst known
      simp only [FileState.summary, next]
    · exact asked'
    · exact (if_pos rfl).trans (congrArg (· + w.count) given')

/-- The lock is left when `f->off` counts all that has been stored. -/
theorem iunlock_wp (zero : ∀ w, h.writing = some w → w.count = 0) (covered : h.stored = 0 ∨ h.off ≤ h.size) :
    wp (fileMachine ino) (fileOutline writable ino first) t FileAct.iunlock.run
      (fun _ v => v = ⟨none, a, g⟩) ⟨some h, a, g⟩ := by
  refine wp_step fun s k inv view => ⟨trivial, fun _ => ?_⟩
  obtain ⟨mine, known, asked', given'⟩ := FileState.view_held view
  have empty : s.count = 0 := by
    unfold FileState.count
    cases here : s.writing with
    | none => rfl
    | some w => exact zero w ((congrArg Held.writing known).symm.trans here)
  have counted := inv.counted
  have logged := inv.logged
  rw [empty] at counted logged
  refine ⟨⟨inv.cons, counted, logged, inv.fitting, inv.intact, fun w none => (by cases none),
    fun _ => ⟨rfl, ?_⟩⟩,
    fun other apart => ?_, ?_⟩
  · subst known
    exact covered
  · have not : s.holder ≠ some other := by
      rw [mine]
      exact fun same => apart (Option.some.inj same).symm
    exact FileState.view_congr (iff_of_false (Option.some_ne_none other).symm not)
      (fun same => absurd same not) (.inl rfl)
  · have away : (if (none : Option Nat) = some t then some (FileState.summary ino { s with
        holder := none, writing := none })
        else none) = none := if_neg (Option.some_ne_none t).symm
    exact FileView.ext away asked' given'

/-- The lock is entered when `f->off` counts all that has been stored. -/
theorem ilock_wp : wp (fileMachine ino) (fileOutline writable ino first) t FileAct.ilock.run
    (fun _ v' => ∃ h, v' = ⟨some h, v.asked, v.given⟩ ∧ h.writing = none ∧
      (h.stored = 0 ∨ h.off ≤ h.size)) v := by
  refine wp_step fun s k inv view => ⟨trivial, fun _ => ?_⟩
  have view : s.view ino t = v := view
  subst view
  cases free : s.holder with
  | some p =>
    have run : fileMachine ino t k .ilock s = .blocked := by simp only [fileMachine, free]
    rw [run]
    trivial
  | none =>
    have run : fileMachine ino t k .ilock s = .ok () { s with holder := some t } :=
      by simp only [fileMachine, free]
    obtain ⟨none, covered⟩ := inv.free free
    rw [run]
    refine ⟨⟨inv.cons, inv.counted, inv.logged, inv.fitting, inv.intact, inv.writing,
      fun wrong => by cases wrong⟩,
      fun other apart => ?_, s.summary ino, FileView.ext (if_pos rfl) rfl rfl, none, covered⟩
    have not : s.holder ≠ some other := by
      rw [free]
      exact (Option.some_ne_none other).symm
    exact FileState.view_congr (iff_of_false (fun same => apart (Option.some.inj same).symm) not)
      (fun same => absurd same not) (.inl rfl)

/-- An event outside the lock that is no chunk. -/
theorem note_wp {e : Event} {Q : Unit → FileView → Prop} (mine : e.of = t)
    (plain : ∀ p start offset count, e ≠ .chunk p start offset count)
    (away : v.held = none)
    (step : ∀ s, FileInv writable ino first s → asked t s.log = v.asked → given t s.log = v.given →
      Fits writable first e s.log ∧ Q () ⟨none, asked t (e :: s.log), given t (e :: s.log)⟩) :
    wp (fileMachine ino) (fileOutline writable ino first) t (FileAct.note e).run Q v := by
  refine wp_step fun s k inv view => ⟨trivial, fun _ => ?_⟩
  have view : s.view ino t = v := view
  subst view
  obtain ⟨fits, post⟩ := step s inv rfl rfl
  have same : total (e :: s.log) = total s.log := by
    cases e with
    | chunk p start offset count => exact absurd rfl (plain p start offset count)
    | _ => rfl
  have intact : Intact ino s.vol (e :: s.log) := by
    cases e with
    | chunk p start offset count => exact absurd rfl (plain p start offset count)
    | _ => exact inv.intact
  refine ⟨⟨inv.cons, inv.counted, ?_, ⟨fits, inv.fitting⟩, intact, inv.writing, inv.free⟩,
    fun other apart => ?_, ?_⟩
  · show s.stored = total (e :: s.log) + s.count
    rw [same]
    exact inv.logged
  · exact FileState.view_congr Iff.rfl (fun _ => rfl)
      (.inr ⟨e, rfl, fun same => apart (same.symm.trans mine)⟩)
  · have view : FileState.view ino t { s with log := e :: s.log } = ⟨none, asked t (e :: s.log),
      given t (e :: s.log)⟩ :=
      FileView.ext away rfl rfl
    show Q () (FileState.view ino t { s with log := e :: s.log })
    rw [view]
    exact post

/-- What others do to the file system changes nothing that a process relies on. -/
theorem elsewhere_wp (vol : Volume) : wp (fileMachine ino) (fileOutline writable ino first) t
    (FileAct.elsewhere vol).run
    (fun _ v' => v' = v) v := by
  refine wp_step fun s k inv view => ⟨trivial, fun (other : Elsewhere ino first s vol) => ?_⟩
  have view : s.view ino t = v := view
  subst view
  have keeps : Keeps ino (first + s.stored) s.vol vol := fun x before b ⟨inside, present, byte⟩ => by
    refine ⟨inside, ?_, (other.bytes x before inside present).trans byte⟩
    rw [other.slots _ inside]
    exact present
  have summary : FileState.summary ino { s with vol } = s.summary ino := by
    simp only [FileState.summary, other.size, Held.mk.injEq, true_and]
    funext bn
    split
    next small => exact other.slots bn small
    next => rfl
  have views : ∀ q, FileState.view ino q { s with vol } = s.view ino q := fun q =>
    FileState.view_congr Iff.rfl (fun _ => summary) (.inl rfl)
  exact ⟨inv.change other.cons keeps (Nat.le_of_eq other.size.symm), fun q _ => views q, views t⟩

theorem still_wp {act : FileAct} (step : ∀ s k, ∃ answer, fileMachine ino t k act s = .ok answer s) :
    wp (fileMachine ino) (fileOutline writable ino first) t act.run (fun _ v' => v' = v) v := by
  refine wp_step fun s k inv view => ⟨trivial, fun _ => ?_⟩
  have view : s.view ino t = v := view
  subst view
  obtain ⟨answer, run⟩ := step s k
  rw [run]
  exact ⟨inv, fun _ _ => rfl, rfl⟩

end Rules

section Calls

variable {writable : Bool} {ino first t i n fuel off tot : Nat} {h : Held} {a : Bytes × Int} {g : Nat}
  {src : Bytes} {v : FileView}

theorem writeLoop_wp (enough : n - tot ≤ fuel) (bound : h.off + n ≤ MAXFILE * BSIZE) (few : tot ≤ n)
    (place : off = h.off + tot)
    (writing : h.writing = some ⟨h.off, i, tot, src⟩) :
    wp (fileMachine ino) (fileOutline writable ino first) t (writeLoop (src.drop i) fuel off tot n)
      (fun r v => ∃ h', v = ⟨some h', a, g⟩ ∧ h'.off = h.off ∧ h'.writing = some ⟨h.off, i, r.2, src⟩ ∧
        r.1 = h.off + r.2 ∧ r.2 ≤ n) ⟨some h, a, g⟩ := by
  induction fuel generalizing h off tot with
  | zero => exact ⟨h, rfl, rfl, writing, place, few⟩
  | succ fuel ih =>
    rw [writeLoop]
    by_cases more : tot < n
    swap
    · rw [if_neg more]
      exact ⟨h, rfl, rfl, writing, place, few⟩
    rw [if_pos more]
    have small : off / BSIZE < MAXFILE := Volume.index_lt (by omega)
    refine wp_seq (bmap_wp small) ?_
    rintro addr _ ⟨slots, rfl, here⟩
    by_cases none : addr = 0
    · rw [if_pos none]
      exact ⟨_, rfl, rfl, writing, place, few⟩
    rw [if_neg none]
    obtain ⟨m, hm⟩ : ∃ m, m = min (n - tot) (BSIZE - off % BSIZE) := ⟨_, rfl⟩
    rw [← hm]
    have positive : off % BSIZE < BSIZE := Nat.mod_lt _ (by decide)
    refine wp_seq (copy_wp (w := ⟨h.off, i, tot, src⟩) writing none small (here none) place
      (by omega) fun x _ => rfl) ?_
    rintro all _ rfl
    cases all with
    | false => exact ⟨_, rfl, rfl, writing, place, few⟩
    | true =>
      simp only [if_true]
      refine wp_mono ?_ (@ih (off + m) (tot + m) { h with
        slots, stored := h.stored + m, writing := some (Writing.grow m ⟨h.off, i, tot, src⟩) }
        (by omega) bound (by omega)
        (by show off + m = h.off + (tot + m); omega) rfl)
      rintro r v ⟨h', rfl, rest⟩
      exact ⟨h', rfl, rest⟩

/-- What a call of `writei` answers: what it has stored, or an error and nothing is stored. -/
def Answers (h : Held) (i n : Nat) (src : Bytes) (a : Bytes × Int) (g : Nat) (r : Int)
    (v : FileView) : Prop :=
  ∃ h' tot, v = ⟨some h', a, g⟩ ∧ h'.off = h.off ∧ h'.writing = some ⟨h.off, i, tot, src⟩ ∧ tot ≤ n ∧
    (r = -1 ∧ tot = 0 ∧ h' = h ∨ r = tot ∧ h.off + tot ≤ MAXFILE * BSIZE ∧ h.off + tot ≤ h'.size)

theorem writei_wp (writing : h.writing = some ⟨h.off, i, 0, src⟩) (word : n < 2 ^ 32) :
    wp (fileMachine ino) (fileOutline writable ino first) t (writei (src.drop i) h.off n)
    (Answers h i n src a g)
      ⟨some h, a, g⟩ := by
  have top : MAXFILE * BSIZE < 2 ^ 32 := by decide
  have error : Answers h i n src a g (-1) ⟨some h, a, g⟩ :=
    ⟨h, 0, rfl, rfl, writing, Nat.zero_le n, .inl ⟨rfl, rfl, rfl⟩⟩
  refine wp_seq size_wp ?_
  rintro size _ ⟨bounded, rfl⟩
  by_cases past : size < h.off ∨ (h.off + n) % 2 ^ 32 < h.off
  · rw [if_pos past]
    exact error
  rw [if_neg past]
  by_cases large : MAXFILE * BSIZE < (h.off + n) % 2 ^ 32
  · rw [if_pos large]
    exact error
  rw [if_neg large]
  have bound : h.off + n ≤ MAXFILE * BSIZE := by omega
  refine wp_seq (writeLoop_wp (Nat.le_refl n) bound (Nat.zero_le n) rfl writing) ?_
  rintro ⟨off, tot⟩ _ ⟨h', rfl, same, writing', place, few⟩
  obtain rfl : off = h.off + tot := place
  have few : tot ≤ n := few
  refine wp_seq (setSize_wp (by show h.off + tot ≤ MAXFILE * BSIZE; omega)) ?_
  rintro _ _ rfl
  exact ⟨_, tot, rfl, same, writing', few, .inr ⟨rfl, by omega, Nat.le_max_right ..⟩⟩

/-- The end of a round. -/
theorem leave_wp {rest : FileProg Nat} {Q : Nat → FileView → Prop}
    (zero : ∀ w, h.writing = some w → w.count = 0)
    (covered : h.stored = 0 ∨ h.off ≤ h.size)
    (after : wp (fileMachine ino) (fileOutline writable ino first) t rest Q ⟨none, a, g⟩) :
    wp (fileMachine ino) (fileOutline writable ino first) t (do
      FileAct.iunlock.run
      FileAct.endOp.run
      rest) Q ⟨some h, a, g⟩ := by
  refine wp_seq (iunlock_wp zero covered) ?_
  rintro _ _ rfl
  refine wp_seq (still_wp fun s _ => ⟨(), rfl⟩) ?_
  rintro _ _ rfl
  exact after

theorem filewriteLoop_wp {n : Int} (enough : n.toNat - i ≤ fuel) (few : i ≤ n.toNat) :
    wp (fileMachine ino) (fileOutline writable ino first) t (filewriteLoop t src n fuel i)
      (fun i' v => v.held = none ∧ v.asked = (src, n) ∧ ((v.given : Int) = n ↔ (i' : Int) = n))
      ⟨none, (src, n), i⟩ := by
  have top : MAXFILE * BSIZE < 2 ^ 32 := by decide
  induction fuel generalizing i with
  | zero => exact ⟨rfl, rfl, Iff.rfl⟩
  | succ fuel ih =>
    rw [filewriteLoop]
    by_cases more : (i : Int) < n
    swap
    · rw [if_neg more]
      exact ⟨rfl, rfl, Iff.rfl⟩
    rw [if_pos more]
    obtain ⟨n1, hn1⟩ : ∃ n1, n1 = min (n.toNat - i) (((MAXOPBLOCKS - 1 - 1 - 2) / 2) * BSIZE) := ⟨_, rfl⟩
    have limit : ((MAXOPBLOCKS - 1 - 1 - 2) / 2) * BSIZE = 3072 := by decide
    rw [limit] at hn1
    simp only [limit, ← hn1]
    refine wp_seq (still_wp fun s _ => ⟨(), rfl⟩) ?_
    rintro _ _ rfl
    refine wp_seq ilock_wp ?_
    rintro _ _ ⟨h, rfl, free, covered⟩
    refine wp_seq (offset_wp src i free) ?_
    rintro _ _ ⟨rfl, rfl⟩
    refine wp_seq (@writei_wp writable ino first t i n1 { h with writing := some ⟨h.off, i, 0, src⟩ }
      _ _ src rfl (by omega)) ?_
    rintro r _ ⟨h', tot, rfl, same, writing, small, answer⟩
    rcases answer with ⟨rfl, rfl, rfl⟩ | ⟨rfl, bound, inside⟩
    · -- An error of `writei` leaves everything as it was.
      have stops : (-1 : Int) ≠ n1 := by omega
      rw [if_neg (by decide : ¬ (0 : Int) < -1), if_pos stops]
      exact leave_wp (fun w here => by cases here; rfl) covered ⟨rfl, rfl, Iff.rfl⟩
    · have start : h'.off = h.off := same
      by_cases some : (0 : Int) < tot
      · rw [if_pos some, Int.toNat_natCast]
        refine wp_seq (advance_wp writing rfl rfl rfl rfl rfl (by show ((i + tot : Nat) : Int) ≤ n; omega)
          (by show h'.off + tot < 2 ^ 32; omega)) ?_
        rintro _ _ rfl
        refine leave_wp (fun w here => by cases here) (.inr (by show h'.off + tot ≤ h'.size; omega)) ?_
        by_cases short : (tot : Int) ≠ n1
        · -- A chunk that is not whole ends the call, and counts in the offset all the same.
          rw [if_pos short]
          exact ⟨rfl, rfl, iff_of_false (by show ((i + tot : Nat) : Int) ≠ n; omega) (by omega)⟩
        · rw [if_neg short]
          exact ih (by omega) (by omega)
      · rw [if_neg some, if_pos (by omega : (tot : Int) ≠ n1)]
        refine leave_wp (fun w here => ?_) (.inr (by omega)) ⟨rfl, rfl, Iff.rfl⟩
        rw [writing] at here
        obtain rfl := Option.some.inj here
        show tot = 0
        omega

theorem FileCall.code_wp {s : FileState} {call : FileCall} (legal : (fileCalls writable).legal t s call)
    (away : v.held = none) :
    wp (fileMachine ino) (fileOutline writable ino first) t ((fileCalls writable).code call)
    (fun _ v => v.held = none) v := by
  cases call with
  | elsewhere vol => exact wp_mono (fun _ v' (same : v' = v) => same ▸ away) (elsewhere_wp vol)
  | write p src n =>
    obtain rfl : t = p := legal
    have finish : ∀ (r : Int) (v : FileView), v.held = none →
      r = (if writable = true ∧ (v.given : Int) = v.asked.2 then v.asked.2 else -1) →
        wp (fileMachine ino) (fileOutline writable ino first) t (FileAct.note (.returned t r)).run
        (fun _ v => v.held = none) v := by
      intro r v away answer
      refine note_wp rfl (fun _ _ _ _ wrong => by cases wrong) away fun s _ asked given => ⟨?_, rfl⟩
      show r = if writable = true ∧ (Shared.given t s.log :
        Int) = (Shared.asked t s.log).2 then (Shared.asked t s.log).2 else -1
      rw [asked, given]
      exact answer
    refine wp_seq (R := fun _ v => v = ⟨none, (src, n), 0⟩) ?_ ?_
    · refine note_wp rfl (fun _ _ _ _ wrong => by cases wrong) away fun s _ _ _ => ⟨trivial, ?_⟩
      exact FileView.ext rfl (if_pos rfl) (if_pos rfl)
    · rintro _ _ rfl
      cases writable with
      | false => exact finish (-1) _ rfl (if_neg fun both => by cases both.1).symm
      | true =>
        refine wp_seq (R := fun r v => v.held = none ∧
          r = (if true = true ∧ (v.given : Int) = v.asked.2 then v.asked.2 else -1))
          (wp_seq (filewriteLoop_wp (Nat.le_refl _) (Nat.zero_le _)) ?_) fun r v done =>
          finish r v done.1 done.2
        rintro i v ⟨away, asked, whole⟩
        refine ⟨away, ?_⟩
        rw [asked]
        by_cases all : (i : Int) = n
        · rw [if_pos all, if_pos ⟨rfl, whole.mpr all⟩]
        · rw [if_neg all, if_neg fun both => all (whole.mp both.2)]

end Calls

section Tiles

variable {writable : Bool} {first : Nat} {log : List Event}

/-- The chunks lie one behind the other. -/
theorem Fitting.tiles (fitting : Fitting writable first log) :
    (chunks log).Pairwise (fun c d => c.1 + c.2 ≤ d.1) ∧ (∀ c ∈ chunks log, c.1 + c.2 ≤ first + total log) ∧
    ∀ x, first ≤ x ∧ x < first + total log ↔ ∃ c ∈ chunks log, c.1 ≤ x ∧ x < c.1 + c.2 := by
  induction log with
  | nil =>
    have none : total [] = 0 := rfl
    refine ⟨.nil, fun c member => (by cases member), fun x => iff_of_false (by omega) ?_⟩
    rintro ⟨c, member, -⟩
    cases member
  | cons e earlier ih =>
    obtain ⟨apart, below, cover⟩ := ih fitting.2
    cases e with
    | began => exact ⟨apart, below, cover⟩
    | returned => exact ⟨apart, below, cover⟩
    | chunk p start offset count =>
      have start' : start = first + total earlier := fitting.1.1
      rw [total_chunk]
      refine ⟨?_, fun c member => ?_, fun x => ?_⟩
      · refine List.pairwise_append.mpr ⟨apart, List.pairwise_singleton .., fun c before d last => ?_⟩
        rw [List.mem_singleton.mp last]
        have := below c before
        omega
      · rcases List.mem_append.mp member with before | last
        · have := below c before
          omega
        · rw [List.mem_singleton.mp last]
          show start + count ≤ _
          omega
      · rw [chunks]
        constructor
        · rintro ⟨lower, upper⟩
          by_cases old : x < first + total earlier
          · obtain ⟨c, member, inside⟩ := (cover x).mp ⟨lower, old⟩
            exact ⟨c, List.mem_append_left _ member, inside⟩
          · exact ⟨(start, count), List.mem_append_right _ (List.mem_singleton.mpr rfl),
              by show start ≤ x; omega,
              by show x < start + count; omega⟩
        · rintro ⟨c, member, inside⟩
          rcases List.mem_append.mp member with before | last
          · have := (cover x).mpr ⟨c, before, inside⟩
            omega
          · rw [List.mem_singleton.mp last] at inside
            have : start ≤ x ∧ x < start + count := inside
            omega

theorem Intact.chunk {ino p start offset count x : Nat} {vol : Volume} {later earlier : List Event}
    (intact : Intact ino vol (later ++ .chunk p start offset count :: earlier)) (small : x < count) :
    Has ino vol (start + x) ((asked p earlier).1 (offset + x)) := by
  induction later with
  | nil => exact intact.1 x small
  | cons e later ih =>
    cases e with
    | chunk => exact ih intact.2
    | began => exact ih intact
    | returned => exact ih intact

end Tiles

variable {writable : Bool} {ino first : Nat} {vol : Volume} {x : FileConfig}

theorem fileReach_holds (cons : vol.Consistent)
    (run : Reach (fileMachine ino) (fileAllowed ino first) (fileCalls writable) (fileStart vol first) x) :
    (fileOutline writable ino first).Holds (fileMachine ino) (fun _ v => v.held = none) x := by
  have start : (fileOutline writable ino first).Holds (fileMachine ino) (fun _ v => v.held = none)
    (fileStart vol first) :=
    ⟨⟨cons, rfl, rfl, trivial, trivial, fun w none => (by cases none), fun _ => ⟨rfl, .inl rfl⟩⟩,
      fun t => rfl⟩
  exact start.reach (fileOutline_isolated writable ino first) (fun t s call _ away legal =>
    FileCall.code_wp legal away) run

/-- Whenever the inode is unlocked, `f->off` is where it was at first plus the number of bytes stored, which
lie in the file; the chunks of all calls tile the file from the first offset on, each call's in its order; and
the file has the bytes of each. -/
theorem offset_shared (cons : vol.Consistent)
    (run : Reach (fileMachine ino) (fileAllowed ino first) (fileCalls writable) (fileStart vol first) x)
    (unlocked : x.shared.holder = none) :
    x.shared.off = first + x.shared.stored ∧
    (x.shared.stored = 0 ∨ x.shared.off ≤ (x.shared.vol.inode ino).size) ∧
    (chunks x.shared.log).Pairwise (fun c d => c.1 + c.2 ≤ d.1) ∧
    (∀ y, first ≤ y ∧ y < x.shared.off ↔ ∃ c ∈ chunks x.shared.log, c.1 ≤ y ∧ y < c.1 + c.2) ∧
    (∀ later e earlier, x.shared.log = later ++ e :: earlier → Fits writable first e earlier) ∧
    ∀ later p start offset count earlier, x.shared.log = later ++ .chunk p start offset count :: earlier →
      ∀ y < count, x.shared.vol.file ino (start + y) = (asked p earlier).1 (offset + y) := by
  have inv : FileInv writable ino first x.shared := (fileReach_holds cons run).inv
  obtain ⟨idle, covered⟩ := inv.free unlocked
  have empty : x.shared.count = 0 := by
    unfold FileState.count
    rw [idle]
  have counted := inv.counted
  have logged := inv.logged
  rw [empty] at counted logged
  obtain ⟨apart, -, cover⟩ := inv.fitting.tiles
  refine ⟨counted, covered, apart, fun y => ?_, fun later e earlier history => ?_,
    fun later p start offset count earlier history y small => ?_⟩
  · rw [← cover y, ← logged.trans (Nat.add_zero _), ← show x.shared.off = first + x.shared.stored from counted]
  · have fitting := inv.fitting
    rw [history] at fitting
    exact fitting.fits
  · have intact := inv.intact
    rw [history] at intact
    exact (intact.chunk small).2.2

instance fileCalls.decidableLegal (t : Nat) (s : FileState) (call : FileCall) :
    Decidable ((fileCalls writable).legal t s call) := by
  cases call with
  | write p src n => exact inferInstanceAs (Decidable (t = p))
  | elsewhere vol => exact inferInstanceAs (Decidable True)

def FileAct.here : FileAct → Bool
  | .elsewhere _ => false
  | _ => true

/-- Somebody takes so many steps; a copy finds so many bytes. -/
def fileSteps (p n k : Nat) : List (Move Nat Nat FileCall) := List.replicate n (.act p k)

/-- Two processes write three and two bytes, and between them the copy of a third one fails. -/
def threeWrites : List (Move Nat Nat FileCall) :=
  [.call 1 (.write 1 (fun _ => 7) 3), .call 2 (.write 2 (fun _ => 8) 5), .call 3 (.write 3 (fun _ => 9) 2)] ++
    (fileSteps 3 2 0 ++ fileSteps 1 12 3 ++ fileSteps 2 11 1 ++ fileSteps 3 10 2)

theorem offset_shared_three : ∃ x : FileConfig, x.shared.holder = none ∧
    chunks x.shared.log = [(0, 3), (3, 2)] ∧
    x.shared.off = 0 + x.shared.stored := by
  have found : (drive (fileMachine 5) (fun _ a _ => a.here = true) (fileCalls true) threeWrites
      (fileStart emptyVolume 0)).map (fun x => (x.shared.holder, chunks x.shared.log)) = some (none,
      [(0, 3), (3, 2)]) := by
    decide +kernel
  obtain ⟨x, run, shows⟩ := Option.map_eq_some_iff.mp found
  obtain ⟨unlocked, tiles⟩ := Prod.mk.inj shows
  have run' : Reach (fileMachine 5) (fileAllowed 5 0) (fileCalls true) (fileStart emptyVolume 0) x := by
    refine Reach.weaken (fun t a s here => ?_) (drive_reach run)
    cases a with
    | elsewhere vol => cases here
    | _ => exact True.intro
  exact ⟨x, unlocked, tiles, (offset_shared emptyVolume_consistent run' unlocked).1⟩

end Xv6.Shared
