import Xv6.Content.DirOps
import Xv6.Sysfile.Machine

/-! What the steps of a call do to the disk, and when there is space for a directory entry. -/

namespace Xv6.Sysfile
open Function Content

/-- Inode `e` and its contents are as they were. -/
structure Agrees (e : Nat) (v v' : Volume) : Prop where
  kept : Volume.Kept e v v'
  nlink : (v'.inode e).nlink = (v.inode e).nlink

/-- Nothing has happened to any inode but `d`. -/
def Only (d : Nat) (v v' : Volume) : Prop := ∀ e, e ≠ d → v'.inode e = v.inode e ∧
    (v.NoHoles e → Volume.Kept e v v')

/-- There is a block for block `bn` of an inode, or there are enough free blocks for it and the indirect
block. -/
def Space (v : Volume) (d bn : Nat) : Prop :=
  v.slot d (dataSlot bn) ≠ 0 ∨ ∃ b < v.size, v.used b = false ∧
    (NDIRECT ≤ bn → v.slot d NDIRECT = 0 → ∃ c < v.size, c ≠ b ∧ v.used c = false)

/-- A directory has room for one more entry. -/
def Room (v : Volume) (d : Nat) : Prop :=
  (∃ k < v.count d, v.inum d k = 0) ∨
    (v.inode d).size + direntSize ≤ MAXFILE * BSIZE ∧ Space v d ((v.inode d).size / BSIZE)

section Space

variable {v v' v'' : Volume} {d e bn addr off n inum : Nat} {src name : Bytes} {r : Int}

theorem Agrees.refl (full : v.NoHoles e) : Agrees e v v := ⟨Volume.Kept.refl full, rfl⟩

theorem Agrees.trans (first : Agrees e v v') (second : Agrees e v' v'') : Agrees e v v'' :=
  ⟨first.kept.trans second.kept, second.nlink.trans first.nlink⟩

theorem Only.agrees (only : Only d v v') (apart : e ≠ d) (full : v.NoHoles e) : Agrees e v v' :=
  ⟨(only e apart).2 full, by rw [(only e apart).1]⟩

theorem Only.trans (first : Only d v v') (second : Only d v' v'') : Only d v v'' := fun e apart =>
  ⟨(second e apart).1.trans (first e apart).1, fun full =>
    ((first e apart).2 full).trans ((second e apart).2 ((first e apart).2 full).full)⟩

theorem Only.of_others (others : Volume.OthersKept d v v') (same : ∀ e, e ≠ d → v'.inode e = v.inode e) :
    Only d v v' :=
  fun e apart => ⟨same e apart, (others e apart).2⟩

theorem replace_only (cons : v.Consistent) (ip : Inode) (place : (∀ k, ip.addrs k = 0) ∨
      ip.addrs = (v.inode d).addrs)
    (size : ip.size ≤ MAXFILE * BSIZE) : (v.setInode d ip).logWrite.Consistent ∧
    Only d v (v.setInode d ip).logWrite :=
  ⟨(Volume.replace_spec cons ip place size).1,
    .of_others (Volume.replace_spec cons ip place size).2 fun _ apart => update_of_ne apart ..⟩

theorem setNlink_only (cons : v.Consistent) (d : Nat) (nlink : Int) : Only d v (v.setNlink d nlink) :=
  fun e apart => ⟨update_of_ne apart .., ((Volume.setNlink_spec cons d nlink).2 e).2⟩

theorem setNlink_nlink (v : Volume) (d : Nat) (nlink : Int) :
    ((v.setNlink d nlink).inode d).nlink = nlink := by
  simp [Volume.setNlink, Volume.setInode, Volume.logWrite]

theorem free_only (cons : v.Consistent) : ∃ v', v.iputFree d = .ok v' ∧ v'.Consistent ∧ Only d v v' ∧
    (v'.inode d).type = 0 := by
  obtain ⟨v₁, run, truncated⟩ := Volume.itrunc_spec (i := d) cons
  obtain ⟨v', free, cons', others, type⟩ := Volume.iputFree_spec (i := d) cons
  refine ⟨v', free, cons', .of_others others fun e apart => ?_, type⟩
  simp only [Volume.iputFree, run, Bind.bind, Except.bind] at free
  cases free
  exact (update_of_ne apart ..).trans (truncated.others e apart).1

theorem writei_only (cons : v.Consistent) (small : n < 2 ^ 32) {limit : Option Nat}
    (run : v.writei d src limit off n = .ok (r, v')) : Only d v v' ∧
    (v'.inode d).nlink = (v.inode d).nlink := by
  obtain ⟨r', v₁, run', ⟨-, rfl, -⟩ | ⟨off', tot', v₂, -, at_most, fits, written, rfl⟩⟩ :=
    Volume.writei_spec d src limit off cons small
  all_goals
    rw [run] at run'
    cases run'
  · exact ⟨fun e _ => ⟨rfl, Volume.Kept.refl⟩, rfl⟩
  · refine ⟨.of_others (written.wrote.others_kept (written.safe cons at_most fits)) fun e apart => ?_, ?_⟩
    · rw [Volume.setSize_other apart, (written.wrote.others e apart).1]
    · have same : (v₂.setSize d (max (v.inode d).size off')).inode d = { v₂.inode d with
          size := max (v.inode d).size off' } :=
        update_self ..
      rw [same]
      exact written.wrote.fields.2.1

/-! ### Space -/

/-- Block 0 is never given away. -/
theorem balloc_some (boot : v.used 0 = true) : v.balloc.1 ≠ 0 ↔ ∃ b < v.size, v.used b = false := by
  unfold Volume.balloc
  dsimp only
  cases found : (List.range v.size).find? fun b => !v.used b with
  | none =>
    refine ⟨fun wrong => absurd rfl wrong, fun ⟨b, below, free⟩ => ?_⟩
    have used := List.find?_eq_none.mp found b (List.mem_range.mpr below)
    simp [free] at used
  | some b =>
    have free : v.used b = false := by simpa using List.find?_some found
    refine ⟨fun _ => ⟨b, List.mem_range.mp (List.mem_of_find?_eq_some found), free⟩, fun _ zero => ?_⟩
    rw [show b = 0 from zero, boot] at free
    cases free

theorem balloc_used (got : v.balloc.1 ≠ 0) : v.balloc.1 < v.size ∧
    v.balloc.2.used = update v.used v.balloc.1 true := by
  revert got
  unfold Volume.balloc
  dsimp only
  cases found : (List.range v.size).find? fun b => !v.used b with
  | none => exact fun wrong => absurd rfl wrong
  | some b => exact fun _ => ⟨List.mem_range.mp (List.mem_of_find?_eq_some found), rfl⟩

theorem loadAddr_absent {k : Nat} (absent : (v.inode d).addrs k = 0) : (v.loadAddr d k).1 = v.balloc.1 := by
  unfold Volume.loadAddr
  rw [if_pos absent]
  dsimp only
  split
  next none => exact none.symm
  next => rfl

theorem loadEntry_absent {b k : Nat} (absent : v.entry b k = 0) : (v.loadEntry b k).1 = v.balloc.1 := by
  unfold Volume.loadEntry
  rw [if_pos absent]
  dsimp only
  split
  next none => exact none.symm
  next => rfl

/-- `bmap` finds a block or gets one if there is space. -/
theorem bmap_space (cons : v.Consistent) (boot : v.used 0 = true) (small : bn < MAXFILE)
    (run : v.bmap d bn = .ok (addr, v')) :
    addr ≠ 0 ↔ Space v d bn := by
  obtain ⟨r, run', loaded⟩ := Volume.bmap_spec (i := d) cons small
  rw [run] at run'
  cases run'
  by_cases present : v.slot d (dataSlot bn) ≠ 0
  · have found := congrArg Prod.fst (loaded.present present)
    exact ⟨fun _ => .inl present, fun _ => by rwa [show addr = _ from found]⟩
  have absent := not_not.mp present
  have space : Space v d bn ↔ _ := or_iff_right present
  rw [space]
  unfold Volume.bmap at run
  unfold dataSlot at absent
  by_cases direct : bn < NDIRECT
  · rw [if_pos direct] at run absent
    rw [Volume.slot_direct (by omega)] at absent
    rw [show addr = _ from (congrArg Prod.fst (Except.ok.inj run)).symm, loadAddr_absent absent, balloc_some boot]
    constructor
    · rintro ⟨b, below, free⟩
      exact ⟨b, below, free, fun wrong => absurd wrong (by omega)⟩
    · rintro ⟨b, below, free, -⟩
      exact ⟨b, below, free⟩
  have inside : bn - NDIRECT < NINDIRECT := by
    simp only [MAXFILE] at small
    omega
  rw [if_neg direct, if_pos inside] at run
  rw [if_neg direct, show bn + 1 = NDIRECT + 1 + (bn - NDIRECT) by omega] at absent
  have value := congrArg Prod.fst (Except.ok.inj run)
  rw [Volume.slot_direct (le_refl _)]
  by_cases none : (v.inode d).addrs NDIRECT = 0
  · have first := loadAddr_absent (v := v) (d := d) none
    by_cases got : v.balloc.1 = 0
    · rw [if_pos (first.trans got)] at value
      have full : ¬∃ b < v.size, v.used b = false := fun some => (balloc_some boot).mpr some got
      constructor
      · exact fun wrong => absurd value.symm wrong
      · rintro ⟨b, below, free, -⟩
        exact absurd ⟨b, below, free⟩ full
    · have load : v.loadAddr d NDIRECT = (v.balloc.1, v.balloc.2.setAddr d NDIRECT v.balloc.1) := by
        unfold Volume.loadAddr
        rw [if_pos none]
        exact if_neg got
      have spec := Volume.balloc_spec cons
      have zeroed : (v.balloc.2.setAddr d NDIRECT v.balloc.1).entry v.balloc.1 (bn - NDIRECT) = 0 :=
        (congrArg (fun m => Bytes.le m (4 * (bn - NDIRECT)) 4) (spec.2.2 got).2.2.1).trans (Bytes.le_zero ..)
      have used : (v.balloc.2.setAddr d NDIRECT v.balloc.1).used = update v.used v.balloc.1 true :=
        (balloc_used got).2
      have again : (v.balloc.2.setAddr d NDIRECT v.balloc.1).used 0 = true := by
        rw [used, update_of_ne (Ne.symm got), boot]
      rw [load, if_neg got, loadEntry_absent zeroed] at value
      rw [show addr = _ from value.symm, balloc_some again, used]
      have size : (v.balloc.2.setAddr d NDIRECT v.balloc.1).size = v.size := spec.1.2
      rw [size]
      constructor
      · rintro ⟨c, below, free⟩
        have apart : c ≠ v.balloc.1 := by
          rintro rfl
          rw [update_self] at free
          cases free
        rw [update_of_ne apart] at free
        exact ⟨c, below, free, fun _ _ => ⟨_, (balloc_used got).1, apart.symm, (spec.2.2 got).1⟩⟩
      · rintro ⟨b, below, free, more⟩
        obtain ⟨c, below', apart, free'⟩ := more (by omega) none
        by_cases here : b = v.balloc.1
        · exact ⟨c, below', by rwa [update_of_ne (here ▸ apart)]⟩
        · exact ⟨b, below, by rwa [update_of_ne here]⟩
  · have load : v.loadAddr d NDIRECT = ((v.inode d).addrs NDIRECT, v) := if_neg none
    rw [Volume.slot_indirect none] at absent
    rw [load, if_neg none, loadEntry_absent absent] at value
    rw [show addr = _ from value.symm, balloc_some boot]
    constructor
    · rintro ⟨b, below, free⟩
      exact ⟨b, below, free, fun _ wrong => absurd wrong none⟩
    · rintro ⟨b, below, free, -⟩
      exact ⟨b, below, free⟩

/-- An entry is written at the end of a directory if there is space. -/
theorem writei_space (cons : v.Consistent) (boot : v.used 0 = true) (aligned : off % direntSize = 0)
    (at_most : off ≤ (v.inode d).size) (run : v.writei d src none off direntSize = .ok (r, v')) :
    r = direntSize ↔ off + direntSize ≤ MAXFILE * BSIZE ∧ Space v d (off / BSIZE) := by
  have capacity : MAXFILE * BSIZE + direntSize < 2 ^ 32 := by decide
  have sizes := cons.sizes d
  have sum : (off + direntSize) % 2 ^ 32 = off + direntSize := Nat.mod_eq_of_lt (by omega)
  unfold Volume.writei at run
  rw [sum, if_neg (by omega)] at run
  by_cases large : MAXFILE * BSIZE < off + direntSize
  · rw [if_pos large] at run
    cases run
    exact ⟨fun wrong => absurd wrong (by decide), fun ⟨fits, _⟩ => by omega⟩
  rw [if_neg large] at run
  have small : off / BSIZE < MAXFILE := Volume.index_lt (by unfold direntSize at large; omega)
  obtain ⟨⟨addr, v₁⟩, map, -⟩ := Volume.bmap_spec (i := d) cons small
  have space := bmap_space cons boot small map
  have round : min (direntSize - 0) (BSIZE - off % BSIZE) = direntSize := by
    unfold direntSize BSIZE at *
    omega
  have loop : Volume.writeLoop d src none (15 + 1) off 0 direntSize v =
      if addr = 0 then .ok (off, 0, v₁)
      else .ok (off + direntSize, direntSize, { v₁ with
        block := update v₁.block addr ((v₁.block addr).splice (off % BSIZE) direntSize (src.drop 0)) }.logWrite) := by
    rw [Volume.writeLoop, if_pos (by decide), map]
    simp only [bind, Except.bind, round, copied, lt_irrefl, if_false]
    split
    · rfl
    · rw [Volume.writeLoop, if_neg (by rw [Nat.zero_add]; exact lt_irrefl _), Nat.zero_add]
  have run : (Volume.writeLoop d src none (15 + 1) off 0 direntSize v).map
      (fun r => ((r.2.1 : Int), r.2.2.setSize d (max (r.2.2.inode d).size r.1))) = .ok (r, v') := run
  rw [loop] at run
  by_cases none : addr = 0
  · rw [if_pos none] at run
    cases run
    exact ⟨fun wrong => absurd wrong (by decide : ((0 : Nat) : Int) ≠ direntSize), fun found =>
      absurd none (space.mpr found.2)⟩
  · rw [if_neg none] at run
    cases run
    exact ⟨fun _ => ⟨by omega, space.mp none⟩, fun _ => rfl⟩

/-- `dirlink` of a name that is not there. -/
theorem addEntry_spec (name : Bytes) (inum : Nat) (cons : v.Consistent) (full : v.NoHoles d)
    (aligned : (v.inode d).size % direntSize = 0) : ∃ r v', addEntry v d name inum = .ok (r, v') ∧
    v'.Consistent ∧ Only d v v' ∧
      (v'.inode d).nlink = (v.inode d).nlink ∧ (v.used 0 = true → (r = 0 ↔ Room v d)) ∧
      ∃ k ≤ v.count d, (k < v.count d → v.inum d k = 0) ∧
      ∃ r', Volume.EntryWritten d k (dirent inum name) v r' v' ∧
        r = if r' = direntSize then 0 else -1 := by
  obtain ⟨k, at_most, look, empty, first⟩ := Volume.emptyLoop_spec (v.inode d).size (j := 0) cons full aligned
    (Nat.zero_le _) (by have := Volume.count_le_size (s := v) (d := d); omega)
  obtain ⟨r', v', write, written⟩ := Volume.writeDirent_spec (dirent inum name) cons full aligned at_most
  obtain ⟨only, nlink⟩ := writei_only cons (by decide) write
  refine ⟨if r' = direntSize then 0 else -1, v', ?_, written.safe.cons, only, nlink, fun boot => ?_,
    k, at_most, empty, r', written, rfl⟩
  · rw [Nat.mul_zero] at look
    simp [addEntry, look, write, Bind.bind, Except.bind, Pure.pure, Except.pure]
  have answer : (if r' = direntSize then (0 : Int) else -1) = 0 ↔ r' = direntSize := by
    split
    next done => exact ⟨fun _ => done, fun _ => rfl⟩
    next short => exact ⟨fun wrong => absurd wrong (by decide), fun done => absurd done short⟩
  rw [answer]
  by_cases inside : k < v.count d
  · exact ⟨fun _ => .inl ⟨k, inside, empty inside⟩, fun _ => written.present inside⟩
  have last : direntSize * k = (v.inode d).size := by
    unfold Volume.count at at_most inside
    unfold direntSize at *
    omega
  rw [last] at write
  rw [writei_space cons boot aligned (le_refl _) write]
  refine (or_iff_right ?_).symm
  rintro ⟨l, below, none⟩
  exact first l (Nat.zero_le l) (by omega) none

/-- What there is room for depends on a directory, its blocks and the bitmap. -/
theorem Room.congr (inode : v'.inode d = v.inode d) (block : v'.block = v.block) (used : v'.used = v.used)
    (size : v'.size = v.size) :
    Room v' d ↔ Room v d := by
  have slots : ∀ l, v'.slot d l = v.slot d l := fun l => Volume.slot_congr (by rw [inode]) fun _ => by
    rw [block]
  have file : v'.file d = v.file d := funext fun x => by
    unfold Volume.file
    rw [slots, block]
  have inum : v'.inum d = v.inum d := funext fun k => by
    unfold Volume.inum Volume.direntAt
    rw [file]
  unfold Room Space Volume.count
  rw [inode, inum, used, size]
  simp only [slots]

end Space

end Xv6.Sysfile
