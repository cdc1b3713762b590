import Xv6.Buffers.Later

namespace Xv6.Buffers
open Function Content
open Vm (Pagetable Memory copyin_bad)

namespace FsState

/-- What the loop of `writei` leaves behind. A copy that has stopped after `k` bytes, into the buffer of block
`a`, comes after `t`, in which all that was written is in the log; without such a copy, `k` is 0. -/
structure Stopped (pt : Pagetable) (mem : Memory) (i src off tot n : Nat) (s : FsState)
    (v : Volume) (off' tot' : Nat)
    (s' t : FsState) (v' : Volume) (a k : Nat) : Prop where
  sound : Sound t v'
  logged : Logged s t
  written : v.Written i (pt.bytes mem src) none off tot tot' off' tot' v'
  few : tot' ≤ n
  fields : s'.sb = t.sb ∧ s'.disk = t.disk ∧ s'.log = t.log ∧ s'.inode = t.inode
  view : s'.view = update t.view a ((t.view a).splice (off' % BSIZE) k ((pt.bytes mem src).drop tot'))
  aligned : off' = off ∨ off' % BSIZE = 0 ∨ tot' = n
  good : ∀ x < tot', pt.source (src + x) ≠ none
  partly : 0 < k → a = v'.slot i (dataSlot (off' / BSIZE)) ∧ a ≠ 0 ∧ k < BSIZE - off' % BSIZE ∧
    off' / BSIZE < MAXFILE
  ended : k = 0 ∧ (tot' = n ∨ v.slot i (dataSlot (off' / BSIZE)) = 0) ∨ pt.bad src n = some (tot' + k)

section Write

variable {pt : Pagetable} {mem : Memory} {s s' t : FsState} {v v' : Volume}
  {i bn src off tot n fuel off' tot' a k : Nat}

/-- A store to a data block that goes to the log. -/
theorem Sound.store (sound : Sound s v) (small : bn < MAXFILE)
    (here : v.slot i (dataSlot bn) = a) (present : a ≠ 0)
    (data : Bytes) : Sound (((s.bread a).2.setData a data).logWrite a)
      { v with block := update v.block a data }.logWrite := by
  subst here
  have plain := sound.apart.slots i _ (dataSlot_lt small) present
  have read : (s.bread (v.slot i (dataSlot bn))).2.Refines v := sound.refines.congr rfl (bread_view ..) rfl
  obtain ⟨cons, -, slots, -⟩ := Volume.store_spec (i := i)
    { v with block := update v.block (v.slot i (dataSlot bn)) data }.logWrite sound.cons small
    data rfl rfl rfl rfl
  exact sound.step ((bread_logged ..).trans (setData_logged ..)) ((read.setData plain data).logWrite _) cons
    ⟨fun _ used => used, fun j l _ => .inl (slots j l)⟩

/-- Nothing more is written. -/
theorem Stopped.start (sound : Sound s' v') (logged : Logged s s') (wrote : Volume.Wrote i v v')
    (same : Volume.Same i v v') (part : tot ≤ n) (good : ∀ x < tot, pt.source (src + x) ≠ none)
    (ended : tot = n ∨ v.slot i (dataSlot (off / BSIZE)) = 0) :
    Stopped pt mem i src off tot n s v off tot s' s' v' 0 0 := by
  refine ⟨sound, logged, Volume.Written.stop sound.cons wrote same (le_refl tot) fun less =>
    absurd less (lt_irrefl tot),
    part, ⟨rfl, rfl, rfl, rfl⟩, ?_, .inl rfl, good, fun positive => absurd positive (lt_irrefl 0),
    .inl ⟨rfl, ended⟩⟩
  have nothing : (s'.view 0).splice (off % BSIZE) 0 ((pt.bytes mem src).drop tot) = s'.view 0 :=
    funext fun x => Bytes.splice_outside (by omega)
  rw [nothing, update_eq_self]

theorem eitherCopyin_bad (pt : Pagetable) (mem : Memory) (dst : Bytes) (a src : Nat) {m : Nat}
    (part : tot + m ≤ n)
    (good : ∀ x < tot, pt.source (src + x) ≠ none) : ∃ k, k ≤ m ∧ eitherCopyin pt mem dst a (src + tot) m =
      .ok (if k = m then 0 else -1, dst.splice a k ((pt.bytes mem src).drop tot)) ∧
      (∀ x < tot + k, pt.source (src + x) ≠ none) ∧ (k < m → pt.bad src n = some (tot + k)) := by
  obtain ⟨k, bound, run, reach, stop⟩ := copyin_bad pt dst a src mem part good
  exact ⟨k, bound, by rw [eitherCopyin, run]; rfl, reach, stop⟩

theorem writeLoop_stopped (off : Nat) (sound : Sound s v) (part : tot ≤ n) (enough : n - tot ≤ fuel)
    (bound : off + (n - tot) ≤ MAXFILE * BSIZE) (good : ∀ x < tot, pt.source (src + x) ≠ none) :
    ∃ off' tot' s' t v' a k, writeLoop pt mem i src fuel off tot n s = .ok (off', tot', s') ∧
      Stopped pt mem i src off tot n s v off' tot' s' t v' a k := by
  induction fuel generalizing off tot s v with
  | zero =>
    exact ⟨off, tot, s, s, v, 0, 0, rfl, Stopped.start sound (Logged.refl s) (Volume.Wrote.refl v)
      (fun _ _ _ _ => rfl) part good (.inl (by omega))⟩
  | succ fuel ih =>
    by_cases more : tot < n
    swap
    · exact ⟨off, tot, s, s, v, 0, 0, by rw [writeLoop, if_neg more], Stopped.start sound (Logged.refl s)
        (Volume.Wrote.refl v) (fun _ _ _ _ => rfl) part good (.inl (by omega))⟩
    have positive : off % BSIZE < BSIZE := Nat.mod_lt _ (by decide)
    have small : off / BSIZE < MAXFILE := Volume.index_lt (by omega)
    obtain ⟨addr, s₁, v₁, mapped, loaded, sound₁, logged₁⟩ := bmap_sound sound i small
    by_cases got : addr = 0
    · refine ⟨off, tot, s₁, s₁, v₁, 0, 0, ?_, Stopped.start sound₁ logged₁ loaded.wrote loaded.same
        part good (.inr ?_)⟩
      · rw [writeLoop, if_pos more, mapped]
        simp only [bind, Except.bind, got, if_true]
        rfl
      · by_contra present
        exact present ((congrArg Prod.fst (loaded.present present)).symm.trans got)
    have here : v₁.slot i (dataSlot (off / BSIZE)) = addr := loaded.result got
    have plain : ¬ s₁.sb.Bitmap addr := by
      have apart := sound₁.apart.slots i _ (dataSlot_lt small)
      rw [here] at apart
      exact apart got
    have shown := sound₁.refines.block plain
    obtain ⟨m, hm⟩ : ∃ m, m = min (n - tot) (BSIZE - off % BSIZE) := ⟨_, rfl⟩
    obtain ⟨k, k_le, copied, reach, stop⟩ := eitherCopyin_bad pt mem (s₁.view addr) (off % BSIZE) src
      (m := m) (n := n) (by omega) good
    set data := (s₁.view addr).splice (off % BSIZE) k ((pt.bytes mem src).drop tot) with hdata
    have path : writeLoop pt mem i src (fuel + 1) off tot n s =
        if k = m then writeLoop pt mem i src fuel (off + m) (tot + m) n
          (((s₁.bread addr).2.setData addr data).logWrite addr)
        else .ok (off, tot, (s₁.bread addr).2.setData addr data) := by
      rw [writeLoop, if_pos more, mapped]
      simp only [bind, Except.bind, got, if_false, ← hm]
      rw [show (s₁.bread addr).1 = s₁.view addr from rfl, copied]
      by_cases whole : k = m
      · simp [whole]
      · simp only [whole, if_false, if_true]
        rfl
    rw [path]
    by_cases whole : k = m
    swap
    · -- the copy fails, and its bytes stay in the buffer
      refine ⟨off, tot, _, s₁, v₁, addr, k, if_neg whole, sound₁, logged₁,
        Volume.Written.stop sound₁.cons loaded.wrote loaded.same (le_refl tot) fun less =>
        absurd less (lt_irrefl tot),
        part, ⟨rfl, rfl, rfl, rfl⟩, ?_, .inl rfl, good, fun _ => ⟨here.symm, got, by omega, small⟩,
        .inr (stop (by omega))⟩
      rw [setData_view, bread_view]
    rw [if_pos whole]
    subst whole
    have sound₂ := sound₁.store small here got data
    obtain ⟨off', tot', s', t, v', a, k', run, stopped⟩ :=
      ih (off + k) sound₂ (by omega) (by omega) (by omega) reach
    have count := stopped.written.count
    have few := stopped.few
    have aligned : off' = off ∨ off' % BSIZE = 0 ∨ tot' = n := by
      rcases stopped.aligned with first | later
      · have whole : off + k = off + (BSIZE - off % BSIZE) ∨ tot + k = n := by omega
        refine .inr (whole.imp (fun block => ?_) fun all => ?_)
        · rw [first, block]
          unfold BSIZE
          omega
        · omega
      · exact .inr later
    have logged₂ : Logged s₁ (((s₁.bread addr).2.setData addr data).logWrite addr) :=
      (bread_logged ..).trans (setData_logged ..)
    refine ⟨off', tot', s', t, v', a, k', run, stopped.sound, logged₁.trans (logged₂.trans stopped.logged),
      stopped.written.next small loaded got ?_ ?_ ?_ rfl rfl rfl ?_, few, stopped.fields,
      stopped.view, aligned,
      stopped.good, stopped.partly, stopped.ended.imp_left (And.imp_right fun ended => ?_)⟩
    · omega
    · omega
    · omega
    · rw [shown]
      rfl
    · by_cases all : tot' = n
      · exact .inl all
      refine .inr (by_contra fun present => ?_)
      have same : v₁.slot i (dataSlot (off' / BSIZE)) = v.slot i (dataSlot (off' / BSIZE)) :=
        loaded.wrote.slots _ (dataSlot_lt (Volume.index_lt (by omega))) present
      obtain ⟨-, -, slots, -⟩ := Volume.store_spec (i := i)
        { v₁ with block := update v₁.block addr data }.logWrite sound₁.cons small data rfl rfl rfl
        (by rw [here]; rfl)
      exact present (same.symm.trans ((slots i _).symm.trans (ended.resolve_left all)))

end Write

/-- After `writei` has returned `tot`, all reads to come find the new bytes in the `tot` places from `off` on,
and what was there before in all others. -/
def LeavesAlone (pt : Pagetable) (mem : Memory) (s : FsState) (i src off : Nat) (tot : Int)
    (s' : FsState) : Prop :=
  ∀ u, Later s' u → u.Shows
    (fun j => if j = i ∧ 0 < tot then max (s.inode i).size (off + tot.toNat) else (s.inode j).size)
    (fun j x => if j = i ∧ off ≤ x ∧ x < off + tot.toNat then pt.bytes mem src (x - off) else s.contents j x)

/-- The copy stops inside a block, and a byte of that block which it has moved differs from the byte of the
file. -/
def Spoils (pt : Pagetable) (mem : Memory) (s : FsState) (i src off n : Nat) : Prop :=
  off ≤ (s.inode i).size ∧ off + n ≤ MAXFILE * BSIZE ∧ ∃ bad, pt.bad src n = some bad ∧
    ∃ x, off ≤ x ∧ (off + bad) / BSIZE * BSIZE ≤ x ∧ x < off + bad ∧ x < (s.inode i).size ∧
      pt.bytes mem src (x - off) ≠ s.contents i x

section Shown

variable {pt : Pagetable} {mem : Memory} {s s' s'' t u : FsState} {v v' : Volume}
  {i j bn src off tot n fuel off' tot' a k x : Nat} {data : Bytes}

theorem Sound.slot (sound : Sound s v) (i bn : Nat) : s.slot i bn = v.slot i (dataSlot bn) := by
  have inode := sound.refines.inode
  unfold FsState.slot dataSlot
  by_cases direct : bn < NDIRECT
  · rw [if_pos direct, if_pos direct, Volume.slot_direct (by omega), inode]
  have later : ¬ bn + 1 ≤ NDIRECT := by omega
  rw [if_neg direct, if_neg direct, Volume.slot, if_neg later, inode]
  by_cases absent : (s.inode i).addrs NDIRECT = 0
  · rw [if_pos absent, if_pos absent]
  rw [if_neg absent, if_neg absent]
  have indirect : v.slot i NDIRECT = (s.inode i).addrs NDIRECT := by
    rw [Volume.slot_direct (le_refl NDIRECT), inode]
  have plain := sound.apart.slots i NDIRECT (by decide)
  rw [indirect] at plain
  have place : bn + 1 - NDIRECT - 1 = bn - NDIRECT := by omega
  rw [Volume.entry, sound.refines.block (plain absent), place]

theorem Sound.noHoles (sound : Sound s v) : v.NoHoles j → s.NoHoles j := fun full bn _ below => by
  rw [sound.slot]
  exact (full bn (by rwa [sound.refines.inode])).2

theorem Sound.contents (sound : Sound s v) (small : x / BSIZE < MAXFILE)
    (present : v.slot i (dataSlot (x / BSIZE)) ≠ 0) : s.contents i x = v.file i x := by
  have plain := sound.apart.slots i _ (dataSlot_lt small) present
  rw [FsState.contents, sound.slot, Volume.file, sound.refines.block plain]

/-- From `s'` on, what was in the log is still there, and of all buffers only that of block `a`
has changed. -/
structure Changed (t : FsState) (a : Nat) (data : Bytes) (s' : FsState) : Prop where
  disk : s'.disk = t.disk
  log : ∀ b ∈ t.log, b ∈ s'.log
  view : s'.view = update t.view a data

/-- Once its buffer is recycled, the block may be as it was. -/
theorem Changed.later (changed : Changed t a data s') (clean : t.Clean) (later : Later s' u) (b : Nat) :
    u.view b = t.view b ∨ b = a ∧ u.view b = data := by
  rcases later.view b with same | ⟨out, disk⟩
  · rw [same, changed.view]
    by_cases here : b = a
    · rw [here, update_self]
      exact .inr ⟨rfl, rfl⟩
    · exact .inl (update_of_ne here ..)
  · rw [disk, changed.disk]
    exact .inl (clean.view fun member => out (changed.log b member)).symm

/-- Before the copy that failed, the file shows what it should. -/
theorem Stopped.before (stopped : Stopped pt mem i src off 0 n s v off' tot' s' t v' a k) (sound : Sound s v)
    (full : ∀ j, v.NoHoles j) (inside : off ≤ (s.inode i).size) (bound : off' ≤ MAXFILE * BSIZE)
    (below : x < if j = i then max (s.inode i).size off' else (s.inode j).size) :
    x / BSIZE < MAXFILE ∧ v'.slot j (dataSlot (x / BSIZE)) ≠ 0 ∧
      t.contents j x = if j = i ∧ off ≤ x ∧ x < off' then pt.bytes mem src (x - off) else s.contents j x := by
  have written := stopped.written
  have inode := sound.refines.inode
  have old : x < (s.inode j).size → x / BSIZE < MAXFILE ∧ v.slot j (dataSlot (x / BSIZE)) ≠ 0 := fun less =>
    full j (x / BSIZE) (by rw [inode]; exact lt_of_le_of_lt (Nat.div_mul_le_self x BSIZE) less)
  by_cases same : j = i
  · subst same
    rw [if_pos rfl] at below
    by_cases new : off ≤ x ∧ x < off'
    · have small : x / BSIZE < MAXFILE := Volume.index_lt (by omega)
      have present := written.present x new.1 new.2
      refine ⟨small, present, ?_⟩
      rw [if_pos ⟨rfl, new⟩, stopped.sound.contents small present,
        written.inside rfl x new.1 new.2, Nat.zero_add]
    · have less : x < (s.inode j).size := by omega
      obtain ⟨small, present⟩ := old less
      have kept := written.wrote.slots _ (dataSlot_lt small) present
      refine ⟨small, by rwa [kept], ?_⟩
      rw [if_neg fun both => new both.2, stopped.sound.contents small (by rwa [kept]),
        written.outside rfl x (by omega) small present, sound.contents small present]
  · rw [if_neg same] at below
    obtain ⟨small, present⟩ := old below
    obtain ⟨-, slots⟩ := written.wrote.others j same
    have kept := slots _ (dataSlot_lt small)
    refine ⟨small, by rwa [kept], ?_⟩
    rw [if_neg fun both => same both.1, stopped.sound.contents small (by rwa [kept]),
      sound.contents small present,
      Volume.file, kept, written.wrote.blocks j same _ (dataSlot_lt small) (dataSlot_ne _) present]
    rfl

/-- A block that `writei` has written to in part holds data of this file only. -/
theorem Stopped.place (stopped : Stopped pt mem i src off tot n s v off' tot' s' t v' a k) (positive : 0 < k)
    (small : bn < NSLOT) (present : v'.slot j bn ≠ 0) (here : v'.slot j bn = a) :
    j = i ∧ bn = dataSlot (off' / BSIZE) := by
  obtain ⟨place, -, -, inside⟩ := stopped.partly positive
  exact stopped.sound.cons.distinct j bn i _ small (dataSlot_lt inside) (here.trans place) present

@[simp] theorem iupdate_view (s : FsState) (i : Nat) : (s.iupdate i).view = s.view := by
  rw [iupdate, logWrite_view, bread_view]

/-- The bytes that the failed copy has moved, as long as the buffer is there. -/
theorem Stopped.moved (stopped : Stopped pt mem i src off 0 n s v off' tot' s' t v' a k)
    (slots : ∀ bn, u.slot i bn = t.slot i bn) (view : u.view a = s'.view a) (lower : off' ≤ x)
    (upper : x < off' + k) :
    u.contents i x = pt.bytes mem src (x - off) := by
  have count := stopped.written.count
  obtain ⟨place, -, part, -⟩ := stopped.partly (by omega)
  obtain ⟨same, low, high, distance⟩ := Volume.round_block (x := x) off' (m := k) (by omega) lower upper
  rw [FsState.contents, slots, same, stopped.sound.slot, ← place, view, stopped.view, update_self,
    Bytes.splice_inside low high, Bytes.drop_apply, distance]
  congr 1
  omega

/-- After `writei`, a byte of a file is what it was after the last whole copy, or one that the failed copy has
moved. -/
theorem Stopped.byte (stopped : Stopped pt mem i src off 0 n s v off' tot' s' t v' a k)
    (view : ∀ b, u.view b = t.view b ∨ b = a ∧ u.view b = s'.view b)
    (addrs : ∀ j, (u.inode j).addrs = (t.inode j).addrs) :
    (∀ j bn, u.slot j bn = t.slot j bn) ∧
    ∀ j x, x / BSIZE < MAXFILE → v'.slot j (dataSlot (x / BSIZE)) ≠ 0 → u.contents j x = t.contents j x ∨
      j = i ∧ off' ≤ x ∧ x < off' + k ∧ (off' + k) / BSIZE * BSIZE ≤ x ∧
      u.contents j x = pt.bytes mem src (x - off) := by
  have count := stopped.written.count
  have same : ∀ b, k = 0 → u.view b = t.view b := fun b none => by
    rcases view b with same | ⟨rfl, changed⟩
    · exact same
    · rw [changed, stopped.view, update_self, none]
      exact funext fun x => Bytes.splice_outside (by omega)
  have indirect : ∀ j, (t.inode j).addrs NDIRECT ≠ 0 →
      u.view ((t.inode j).addrs NDIRECT) = t.view ((t.inode j).addrs NDIRECT) := fun j present => by
    rcases Nat.eq_zero_or_pos k with none | positive
    · exact same _ none
    refine (view _).resolve_right fun changed => ?_
    have slot : v'.slot j NDIRECT = (t.inode j).addrs NDIRECT := by
      rw [Volume.slot_direct (le_refl NDIRECT), stopped.sound.refines.inode]
    obtain ⟨-, data⟩ := stopped.place positive (by decide) (by rwa [slot]) (slot.trans changed.1)
    exact dataSlot_ne _ data.symm
  have slots : ∀ j bn, u.slot j bn = t.slot j bn := fun j bn => slot_congr (addrs j) (indirect j)
  refine ⟨slots, fun j x small present => ?_⟩
  have here := stopped.sound.slot j (x / BSIZE)
  rcases Nat.eq_zero_or_pos k with none | positive
  · exact .inl (by rw [FsState.contents, slots, same _ none, FsState.contents])
  rw [FsState.contents, slots]
  rcases view (t.slot j (x / BSIZE)) with same | ⟨place, changed⟩
  · exact .inl (by rw [same, FsState.contents])
  obtain ⟨rfl, block⟩ := stopped.place positive (dataSlot_lt small) present (here.symm.trans place)
  have block := dataSlot_inj block
  by_cases moved : off' ≤ x ∧ x < off' + k
  · have bytes := stopped.moved (slots j) (by rw [← place, changed]) moved.1 moved.2
    rw [FsState.contents, slots] at bytes
    refine .inr ⟨rfl, moved.1, moved.2, ?_, bytes⟩
    obtain ⟨-, -, part, -⟩ := stopped.partly positive
    unfold BSIZE at *
    omega
  · left
    rw [changed, stopped.view, place, update_self, Bytes.splice_outside, FsState.contents, place]
    unfold BSIZE at *
    omega

/-- What `writei` leaves behind after its loop: the blocks as `Stopped` says, and the size. -/
theorem Stopped.later (stopped : Stopped pt mem i src off 0 n s v off' tot' s' t v' a k) (sound : Sound s v)
    (full : ∀ j, v.NoHoles j) (inside : off ≤ (s.inode i).size) (bound : off' ≤ MAXFILE * BSIZE)
    (later : Later ((s'.setInode i { s'.inode i with size := max (s'.inode i).size off' }).iupdate i) u) :
    u.Shows (fun j => if j = i then max (s.inode i).size off' else (s.inode j).size) u.contents ∧
    (∀ j bn, u.slot j bn = t.slot j bn) ∧
    ∀ j x, (x < if j = i then max (s.inode i).size off' else (s.inode j).size) →
      u.contents j x = (if j = i ∧ off ≤ x ∧ x < off' then pt.bytes mem src (x - off) else s.contents j x) ∨
      j = i ∧ off' ≤ x ∧ x < off' + k ∧ (off' + k) / BSIZE * BSIZE ≤ x ∧
        u.contents j x = pt.bytes mem src (x - off) := by
  obtain ⟨-, disk, log, inode⟩ := stopped.fields
  have sizes : ∀ j, (t.inode j).size = (s.inode j).size := fun j => by
    rw [← stopped.sound.refines.inode, ← sound.refines.inode]
    by_cases same : j = i
    · rw [same]
      exact stopped.written.wrote.fields.2.2
    · rw [(stopped.written.wrote.others j same).1]
  have changed : Changed t a (s'.view a)
    ((s'.setInode i { s'.inode i with size := max (s'.inode i).size off' }).iupdate i) :=
    ⟨disk, fun b member => mem_logWrite.mpr (.inl (log ▸ member)), by
      rw [iupdate_view, setInode_view, stopped.view, update_self]⟩
  have view : ∀ b, u.view b = t.view b ∨ b = a ∧ u.view b = s'.view b := fun b => by
    rcases changed.later stopped.sound.clean later b with same | ⟨here, data⟩
    · exact .inl same
    · exact .inr ⟨here, data.trans (congrArg s'.view here.symm)⟩
  have kept : u.inode = update s'.inode i { s'.inode i with size := max (s'.inode i).size off' } :=
    later.kept.inode
  have addrs : ∀ j, (u.inode j).addrs = (t.inode j).addrs := fun j => by
    rw [kept, inode]
    by_cases same : j = i
    · rw [same, update_self]
    · rw [update_of_ne same]
  have shown : ∀ j, (u.inode j).size =
    if j = i then max (s.inode i).size off' else (s.inode j).size := fun j => by
    rw [kept, inode]
    by_cases same : j = i
    · rw [same, update_self, if_pos rfl, sizes]
    · rw [update_of_ne same, if_neg same, sizes]
  obtain ⟨slots, bytes⟩ := stopped.byte view addrs
  have before := fun j x below => @Stopped.before pt mem s s' t v v' i j src off n off' tot' a k
    x stopped sound full inside
    bound below
  refine ⟨(shows_contents (fun j bn small below => ?_) fun j => ?_).congr
    (fun j => (shown j).symm) fun _ _ _ => rfl,
    slots, fun j x below => ?_⟩
  · rw [shown] at below
    obtain ⟨-, present, -⟩ := before j _ below
    rw [Nat.mul_div_cancel bn (by decide)] at present
    rwa [slots, stopped.sound.slot]
  · have most := sound.cons.sizes j
    rw [sound.refines.inode] at most
    rw [shown]
    split
    next same =>
      rw [same] at most
      omega
    next => exact most
  · obtain ⟨small, present, old⟩ := before j x below
    rw [← old]
    exact bytes j x small present

/-- With every buffer that is not in the log as its block is on the disk, `writei` leaves the bytes alone that
it does not report, in the buffers and on the disk, exactly if it does not spoil a block. -/
theorem writei_leaves_alone_iff (pt : Pagetable) (mem : Memory) (sound : Sound s v) (full : ∀ j, v.NoHoles j)
    (i src : Nat) (small : off < 2 ^ 32) (small' : n < 2 ^ 32) : ∃ tot s',
      writei pt mem s i src off n = .ok (tot, s') ∧
      (LeavesAlone pt mem s i src off tot s' ↔ ¬ Spoils pt mem s i src off n) := by
  have capacity : MAXFILE * BSIZE = 274432 := rfl
  have sizes : ∀ j, (s.inode j).size ≤ MAXFILE * BSIZE := fun j => sound.refines.inode ▸ sound.cons.sizes j
  have nothing : LeavesAlone pt mem s i src off (-1) s := by
    intro u later
    have view : u.view = s.view := funext fun b =>
      (later.view b).elim id fun ⟨out, disk⟩ => disk.trans (sound.clean.view out).symm
    have inode := later.kept.inode
    refine (shows_contents (fun j bn less below => ?_) fun j => ?_).congr (fun j => ?_) fun j x below => ?_
    · rw [slot_congr (by rw [inode]) fun _ => congrFun view _]
      exact sound.noHoles (full j) bn less (by rwa [← inode])
    · rw [inode]
      exact sizes j
    · rw [inode]
      exact if_neg fun both => absurd both.2 (by decide)
    · rw [contents_congr view inode]
      refine if_neg fun both => ?_
      have none : (-1 : Int).toNat = 0 := rfl
      omega
  unfold writei
  by_cases guard : (s.inode i).size < off ∨ (off + n) % 2 ^ 32 < off
  · refine ⟨-1, s, if_pos guard, fun _ spoils => ?_, fun _ => nothing⟩
    obtain ⟨inside, bound, -⟩ := spoils
    omega
  rw [if_neg guard]
  by_cases large : MAXFILE * BSIZE < (off + n) % 2 ^ 32
  · refine ⟨-1, s, if_pos large, fun _ spoils => ?_, fun _ => nothing⟩
    obtain ⟨inside, bound, -⟩ := spoils
    omega
  rw [if_neg large]
  obtain ⟨off', tot', s', t, v', a, k, run, stopped⟩ :=
    @writeLoop_stopped pt mem s v i src 0 n n off sound (Nat.zero_le n)
    (by omega) (by omega) fun x less => absurd less (Nat.not_lt_zero x)
  rw [run]
  have count := stopped.written.count
  have few := stopped.few
  have later := fun u => @Stopped.later pt mem s s' t u v v' i src off n off' tot' a k stopped sound full
    (by omega) (by omega)
  refine ⟨_, _, rfl, fun alone spoils => ?_, fun clean u elapsed => ?_⟩
  · obtain ⟨inside, bound, bad, found, x, lower, block, upper, below, differ⟩ := spoils
    obtain ⟨shown, slots, -⟩ := later _ .refl
    obtain ⟨here, reach⟩ := Vm.bad_spec found
    have after : tot' ≤ bad := by
      by_contra early
      exact stopped.good bad (by omega) here
    obtain ⟨same, positive⟩ : bad = tot' + k ∧ 0 < k := by
      rcases stopped.ended with ⟨-, all | absent⟩ | same
      · omega
      · have left : off' / BSIZE * BSIZE < (v.inode i).size := by
          rw [sound.refines.inode]
          unfold BSIZE at *
          omega
        exact absurd absent (full i _ left).2
      · have same := Option.some.inj (found.symm.trans same)
        refine ⟨same, ?_⟩
        have aligned := stopped.aligned
        unfold BSIZE at *
        omega
    obtain ⟨-, -, part, -⟩ := stopped.partly positive
    have start : off' ≤ x := by
      have aligned := stopped.aligned
      unfold BSIZE at *
      omega
    have most := sizes i
    have bytes := (alone _ .refl).unique shown (j := i) (x := x) (by omega) (by split <;> omega)
    rw [stopped.moved (slots i) (by rw [iupdate_view, setInode_view]) start (by omega)] at bytes
    refine differ (bytes.trans (if_neg fun both => ?_))
    rw [Int.toNat_natCast] at both
    omega
  · obtain ⟨shown, -, bytes⟩ := later u elapsed
    have ended : off + tot' = off' := by omega
    refine shown.congr (fun j => ?_) fun j x below => ?_
    · rw [Int.toNat_natCast, ended]
      by_cases same : j = i
      · subst same
        by_cases positive : 0 < tot'
        · rw [if_pos ⟨rfl, by omega⟩, if_pos rfl]
        · rw [if_neg fun both => positive (by omega), if_pos rfl]
          omega
      · rw [if_neg fun both => same both.1, if_neg same]
    · rw [Int.toNat_natCast, ended]
      rcases bytes j x below with old | ⟨rfl, start, upper, block, moved⟩
      · exact old.symm
      rw [moved, if_neg (by omega)]
      by_contra differ
      rw [if_pos rfl] at below
      have stop : pt.bad src n = some (tot' + k) := by
        rcases stopped.ended with ⟨none, -⟩ | stop
        · omega
        · exact stop
      refine clean ⟨by omega, by omega, tot' + k, stop, x, by omega, ?_, by omega, by omega,
        fun same => differ same.symm⟩
      have sum : off + (tot' + k) = off' + k := by omega
      rwa [sum]

end Shown

end FsState

section OnePage

/-- A file with two bytes in one block, none of it in a buffer. -/
def twoSevens : FsState where
  sb := ⟨2000, 32, 45⟩
  disk b := if b = 45 then fun x => if x = 5 then 96 else 0 else fun _ => 7
  cache _ := none
  log := []
  inode i := if i = 1 then ⟨T_FILE, 1, 2, fun k => if k = 0 then 46 else 0⟩ else ⟨0, 0, 0, fun _ => 0⟩
  written := []

theorem twoSevens_slot (i l : Nat) : (twoSevens.volume 0 0).slot i l = if i = 1 ∧ l = 0 then 46 else 0 := by
  unfold Volume.slot FsState.volume twoSevens
  by_cases here : i = 1
  · by_cases start : l = 0
    · simp [here, start]
    · simp [here, start, NDIRECT]
  · simp [here]

theorem twoSevens_sound : FsState.Sound twoSevens (twoSevens.volume 0 0) := by
  have bitmap : ∀ b, twoSevens.sb.Bitmap b → b = 45 := by
    intro b ⟨c, small, same⟩
    rw [same, BBLOCK, Nat.div_eq_of_lt (lt_trans small (by decide))]
    rfl
  refine ⟨fun b _ => .inl rfl, ⟨0, 0, rfl⟩, ⟨fun i l j m _ _ same some => ?_, fun i l _ some => ?_,
    by decide, fun i => ?_⟩,
    ⟨fun b _ here => ?_, fun j l _ some here => ?_⟩⟩
  · rw [twoSevens_slot] at same some
    rw [twoSevens_slot] at same
    split at some
    next first =>
      rw [if_pos first] at same
      split at same
      next second => exact ⟨first.1.trans second.1.symm, first.2.trans second.2.symm⟩
      next => cases same
    next => exact absurd rfl some
  · rw [twoSevens_slot] at some ⊢
    split at some
    next first =>
      rw [if_pos first]
      decide
    next => exact absurd rfl some
  · simp only [FsState.volume, twoSevens]
    split <;> decide
  · rw [bitmap b here]
    decide
  · have place := bitmap _ here
    rw [twoSevens_slot] at place
    split at place <;> cases place

theorem twoSevens_noHoles (j : Nat) : (twoSevens.volume 0 0).NoHoles j := by
  intro bn below
  by_cases here : j = 1
  · subst here
    obtain rfl : bn = 0 := by
      simp only [FsState.volume, twoSevens, if_true, BSIZE] at below
      omega
    exact ⟨by decide, by rw [twoSevens_slot]; decide⟩
  · simp [FsState.volume, twoSevens, here] at below

/-- What such a write returns, and the first byte that is read after it. -/
def writesThenReads : Except String (Int × UInt8) := do
  let (tot, s') ← FsState.writei onePage nines twoSevens 1 4095 0 2
  let (_, dst, _) ← s'.readi 1 (fun _ => 0) 0 1
  return (tot, dst 0)

/-- A write of two bytes of which the second is not in memory returns 0, and the file begins with a nine. -/
theorem writei_spoils : ∃ s', FsState.writei onePage nines twoSevens 1 4095 0 2 = .ok (0, s') ∧
    ¬ FsState.LeavesAlone onePage nines twoSevens 1 4095 0 0 s' := by
  have run : writesThenReads = .ok (0, 9) := by decide +kernel
  unfold writesThenReads at run
  cases write : FsState.writei onePage nines twoSevens 1 4095 0 2 with
  | error message =>
    rw [write] at run
    cases run
  | ok result =>
    obtain ⟨tot, s'⟩ := result
    rw [write] at run
    simp only [bind, Except.bind] at run
    cases read : s'.readi 1 (fun _ => 0) 0 1 with
    | error message =>
      rw [read] at run
      cases run
    | ok answer =>
      rw [read] at run
      obtain ⟨rfl, nine⟩ := Prod.mk.inj (Except.ok.inj run)
      refine ⟨s', rfl, fun alone => ?_⟩
      obtain ⟨count, u, again, got⟩ := alone s' .refl 1 (fun _ => 0) 0 1 (by omega) (by omega)
      rw [read] at again
      obtain rfl : count = 1 := got
      have byte := congrFun (congrArg (fun r : Int × Bytes × FsState => r.2.1) (Except.ok.inj again)) 0
      dsimp only at nine byte
      rw [nine] at byte
      exact absurd byte (by decide)

theorem writei_leaves_alone_iff_onePage :
    ∃ tot s', FsState.writei onePage nines twoSevens 1 4095 0 2 = .ok (tot, s') ∧
    (FsState.LeavesAlone onePage nines twoSevens 1 4095 0 tot s' ↔
      ¬ FsState.Spoils onePage nines twoSevens 1 4095 0 2) :=
  FsState.writei_leaves_alone_iff onePage nines twoSevens_sound twoSevens_noHoles 1 4095
  (by decide) (by decide)

end OnePage

end Xv6.Buffers
