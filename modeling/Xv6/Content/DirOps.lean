import Xv6.Content.Directory

namespace Xv6.Content
open Function

namespace Volume

section DirOps

variable {s s' s'' : Volume} {d e i ip dp k inum off n type : Nat} {nlink : Int} {m : Name → Nat}
  {name src : Bytes} {limit : Option Nat}

theorem OthersKept.trans (first : OthersKept d s s') (second : OthersKept d s' s'') : OthersKept d s s'' :=
  fun e apart => ⟨(second e apart).1.trans (first e apart).1, fun full =>
    ((first e apart).2 full).trans ((second e apart).2 ((first e apart).2 full).full)⟩

/-- `dirlink` in what is a directory without holes. -/
theorem dirlink_raw (name : Bytes) (inum : Nat) (cons : s.Consistent) (dir : (s.inode d).type = T_DIR)
    (full : s.NoHoles d)
    (aligned : (s.inode d).size % direntSize = 0) : ∃ r s', s.dirlink d name inum = .ok (r, s') ∧
      ((∃ k < s.count d, s.Hit d name k) ∧ r = -1 ∧ s' = s ∨
        (∀ k < s.count d, ¬ s.Hit d name k) ∧ ∃ k ≤ s.count d, (k < s.count d → s.inum d k = 0) ∧
          ∃ r', s.writei d (dirent inum name) none (direntSize * k) direntSize = .ok (r', s') ∧
            EntryWritten d k (dirent inum name) s r' s' ∧ r = if r' = direntSize then 0 else -1) := by
  unfold dirlink
  rcases dirlookup_spec name cons dir full aligned with ⟨k, below, hit, run⟩ | ⟨none, run⟩
  · refine ⟨-1, s, ?_, .inl ⟨⟨k, below, hit⟩, rfl, rfl⟩⟩
    simp [run, Bind.bind, Except.bind, Pure.pure, Except.pure]
  · obtain ⟨k, at_most, look, empty, -⟩ := emptyLoop_spec (s.inode d).size (j := 0) cons full aligned
      (Nat.zero_le _) (by have := count_le_size (s := s) (d := d); omega)
    obtain ⟨r', s', write, written⟩ := writeDirent_spec (dirent inum name) cons full aligned at_most
    refine ⟨_, s', ?_, .inr ⟨none, k, at_most, empty, r', write, written, rfl⟩⟩
    rw [Nat.mul_zero] at look
    simp [run, look, write, Bind.bind, Except.bind, Pure.pure, Except.pure]

/-- `dirlink` in a directory: a present name and a failed allocation leave the map as it is. -/
theorem dirlink_spec (name : Bytes) (cons : s.Consistent) (ok : DirOk s d m) (live : 1 ≤ inum)
    (small : inum < 65536) :
    ∃ r s', s.dirlink d name inum = .ok (r, s') ∧ Safe s s' ∧ OthersKept d s s' ∧
      (r = 0 ∧ m (nameKey name) = 0 ∧ DirOk s' d (update m (nameKey name) inum) ∨
        r = -1 ∧ DirOk s' d m ∧ (m (nameKey name) ≠ 0 → s' = s)) := by
  obtain ⟨r, s', run, ⟨⟨k, below, hit⟩, rfl, rfl⟩ | ⟨none, k, at_most, empty, r', _, written, rfl⟩⟩ :=
    dirlink_raw name inum cons ok.dir ok.full ok.aligned
  · exact ⟨_, _, run, Safe.refl cons, fun e _ => ⟨rfl, Kept.refl⟩, .inr ⟨rfl, ok, fun _ => rfl⟩⟩
  · have absent : m (nameKey name) = 0 := by
      by_contra some
      obtain ⟨j, below, live, same⟩ := ok.only _ some
      exact none j below ⟨live, same⟩
    refine ⟨_, s', run, written.safe, written.others, ?_⟩
    by_cases done : r' = direntSize
    · refine .inl ⟨if_pos done, absent, ?_⟩
      have linked := ok.link written done at_most empty (by rw [dirent_inum small]; omega)
        fun j below liveJ same =>
        none j below ⟨liveJ, by rw [same, dirent_name]⟩
      rwa [dirent_inum small, dirent_name] at linked
    · exact .inr ⟨if_neg done, ok.keep (written.failed done), fun some => absurd absent some⟩

/-- No block can be allocated. -/
def Full (s : Volume) : Prop := ∀ b < s.size, s.used b = true

theorem balloc_full (full : s.Full) : s.balloc.1 = 0 := by
  have none : (List.range s.size).find? (fun b => !s.used b) = none := by
    rw [List.find?_eq_none]
    intro b member
    simpa using full b (List.mem_range.mp member)
  simp [balloc, none]

theorem loadAddr_full (full : s.Full) : (s.loadAddr i k).1 = (s.inode i).addrs k := by
  unfold loadAddr
  split
  · next absent => simp [balloc_full full, absent]
  · rfl

theorem bmap_full {bn : Nat} (full : s.Full) (small : bn < MAXFILE) (absent : s.slot i (dataSlot bn) = 0) :
    ∃ s', s.bmap i bn = .ok (0, s') := by
  unfold bmap
  unfold dataSlot at absent
  by_cases direct : bn < NDIRECT
  · rw [if_pos direct] at absent ⊢
    rw [slot_direct (by omega)] at absent
    exact ⟨_, by rw [← absent, ← loadAddr_full full]⟩
  · have inside : bn - NDIRECT < NINDIRECT := by simp only [MAXFILE] at small; omega
    rw [if_neg direct, if_pos inside]
    rw [if_neg direct] at absent
    by_cases none : (s.inode i).addrs NDIRECT = 0
    · have zero : (s.loadAddr i NDIRECT).1 = 0 := by rw [loadAddr_full full, none]
      exact ⟨_, congrArg Except.ok (if_pos zero)⟩
    · have same : s.loadAddr i NDIRECT = ((s.inode i).addrs NDIRECT, s) := if_neg none
      rw [show bn + 1 = NDIRECT + 1 + (bn - NDIRECT) by omega, slot_indirect none] at absent
      simp only [same, none, if_false, loadEntry, absent, if_true, balloc_full full]
      exact ⟨_, rfl⟩

/-- On a full disk an entry that needs a block is not written. -/
theorem writei_full (full : s.Full) (absent : s.slot i (dataSlot (off / BSIZE)) = 0)
    (fits : off < MAXFILE * BSIZE) {r : Int} (run : s.writei i src limit off direntSize = .ok (r, s')) :
    r ≠ direntSize := by
  unfold writei at run
  split at run
  · cases run
    decide
  · split at run
    · cases run
      decide
    · obtain ⟨s₁, none⟩ := bmap_full full (index_lt fits) absent
      have stop : writeLoop i src limit direntSize off 0 direntSize s = .ok (off, 0, s₁) := by
        rw [direntSize, writeLoop, if_pos (by decide), none]
        rfl
      rw [stop] at run
      cases run
      decide

theorem setNlink_spec (cons : s.Consistent) (i : Nat) (nlink : Int) : (s.setNlink i nlink).Consistent ∧
    ∀ e, ((s.setNlink i nlink).inode e).type = (s.inode e).type ∧
    (s.NoHoles e → Kept e s (s.setNlink i nlink)) := by
  have fields : ∀ e, ((s.setNlink i nlink).inode e).type = (s.inode e).type ∧
      ((s.setNlink i nlink).inode e).size = (s.inode e).size ∧
      ((s.setNlink i nlink).inode e).addrs = (s.inode e).addrs := fun e => by
    by_cases same : e = i
    · subst same
      simp [setNlink, setInode, logWrite]
    · simp [setNlink, setInode, logWrite, same]
  have slots : ∀ e l, (s.setNlink i nlink).slot e l = s.slot e l := fun e l =>
    slot_congr (fields e).2.2 fun _ => rfl
  refine ⟨cons.congr (fun e l _ => slots e l) rfl rfl fun e => ?_, fun e => ⟨(fields e).1, fun full => ?_⟩⟩
  · rw [(fields e).2.1]
    exact cons.sizes e
  · refine ⟨(fields e).1, (fields e).2.1, fun bn below => ?_, fun x _ => ?_⟩
    · rw [(fields e).2.1] at below
      rw [slots]
      exact full bn below
    · unfold file
      rw [slots]
      rfl

/-- An inode is free with no blocks, or is being given another type. -/
theorem replace_spec (cons : s.Consistent) (ip : Inode) (place : (∀ k, ip.addrs k = 0) ∨
      ip.addrs = (s.inode i).addrs)
    (size : ip.size ≤ MAXFILE * BSIZE) : ((s.setInode i ip).logWrite).Consistent ∧
      OthersKept i s (s.setInode i ip).logWrite := by
  set s' := (s.setInode i ip).logWrite with hs'
  have self : s'.inode i = ip := update_self ..
  have other : ∀ e, e ≠ i → s'.inode e = s.inode e := fun e apart => update_of_ne apart _ _
  have slots : ∀ e l, e ≠ i → s'.slot e l = s.slot e l := fun e l apart =>
    slot_congr (by rw [other e apart]) fun _ => rfl
  have mine : ∀ l, s'.slot i l = 0 ∨ s'.slot i l = s.slot i l := fun l => by
    rcases place with none | same
    · left
      by_cases direct : l ≤ NDIRECT
      · rw [slot_direct direct, self, none]
      · exact slot_absent (by rw [self, none]) (by omega)
    · right
      exact slot_congr (by rw [self, same]) fun _ => rfl
  have sub : ∀ e l, s'.slot e l ≠ 0 → s'.slot e l = s.slot e l := fun e l some => by
    by_cases here : e = i
    · subst here
      exact (mine l).resolve_left some
    · exact slots e l here
  refine ⟨⟨fun x l y l' small small' same present => ?_, fun x l small present => ?_,
    cons.small, fun e => ?_⟩,
    fun e apart => ⟨by rw [other e apart], fun full => ⟨by rw [other e apart], by rw [other e
    apart], fun bn below => ?_,
      fun x _ => ?_⟩⟩⟩
  · have first := sub x l present
    have second := sub y l' (by rwa [← same])
    rw [first] at same present
    rw [second] at same
    exact cons.distinct x l y l' small small' same present
  · have first := sub x l present
    rw [first] at present ⊢
    exact cons.used x l small present
  · by_cases here : e = i
    · rw [here, self]
      exact size
    · rw [other e here]
      exact cons.sizes e
  · rw [other e apart] at below
    rw [slots e _ apart]
    exact full bn below
  · unfold file
    rw [slots e _ apart]
    rfl

theorem Truncated.othersKept (truncated : Truncated i s s') : OthersKept i s s' := fun e apart => by
  have same := truncated.others e apart
  refine ⟨by rw [same.1], fun full => ⟨by rw [same.1], by rw [same.1], truncated.noHoles full, fun x _ => ?_⟩⟩
  unfold file
  rw [same.2, truncated.block]

theorem iputFree_spec (cons : s.Consistent) : ∃ s', s.iputFree i = .ok s' ∧ s'.Consistent ∧
    OthersKept i s s' ∧
    (s'.inode i).type = 0 := by
  obtain ⟨s₁, run, truncated⟩ := itrunc_spec (i := i) cons
  have freed := replace_spec (i := i) truncated.cons { s₁.inode i with type := 0 } (.inr rfl)
    (truncated.cons.sizes i)
  refine ⟨_, by simp only [iputFree, run, Bind.bind, Except.bind]; rfl, freed.1,
    truncated.othersKept.trans freed.2, ?_⟩
  simp [setInode, logWrite]

theorem writei_others (i : Nat) (src : Bytes) (limit : Option Nat) (off : Nat) (cons : s.Consistent)
    (small : n < 2 ^ 32) : ∃ r s', s.writei i src limit off n = .ok (r, s') ∧
    s'.Consistent ∧ OthersKept i s s' ∧ (s'.inode i).type = (s.inode i).type := by
  obtain ⟨r, s', run, ⟨_, rfl, _⟩ | ⟨off', tot', s₁, _, at_most, fits, written, rfl⟩⟩ :=
    writei_spec i src limit off cons small
  · exact ⟨r, _, run, cons, fun e _ => ⟨rfl, Kept.refl⟩, rfl⟩
  · have safe := written.safe cons at_most fits
    exact ⟨r, _, run, safe.cons, written.wrote.others_kept safe,
      (setSize_type ..).trans written.wrote.fields.1⟩

end DirOps

end Volume

end Xv6.Content
