import Xv6.Reads.Lost
import Xv6.Content.Ops

namespace Xv6.Reads
open Function Vm Content

section Bounds

variable {pt : Pagetable} {addr dst : UInt64} {s s' : System} {left i j : Nat}

theorem target_below {va : Nat} (found : pt.target va ≠ none) : va < MAXVA := by
  obtain ⟨pa, same⟩ := Option.ne_none_iff_exists'.mp found
  exact (Pagetable.target_some same).1

theorem toNat_add (small : dst.toNat + j < 2 ^ 64) : (dst + UInt64.ofNat j).toNat = dst.toNat + j := by
  rw [UInt64.toNat_add, UInt64.toNat_ofNat']
  omega

/-- A read from a pipe stays inside the buffer. -/
theorem pipereadCopy_memory (injective : pt.Injective) (inside : i = 0 ∨ addr.toNat + i ≤ MAXVA)
    (run : pipereadCopy pt addr left i s = .ok (j, s')) (a : Nat) (out : a < addr.toNat ∨
      addr.toNat + (i + left) ≤ a) :
    pt.user s'.memory a = pt.user s.memory a := by
  induction left generalizing i s with
  | zero =>
    cases run
    rfl
  | succ left ih =>
    rw [pipereadCopy_round] at run
    have whole : (addr + UInt64.ofNat i).toNat = addr.toNat + i := by
      refine toNat_add ?_
      have := addr.toNat_lt
      unfold MAXVA at inside
      omega
    split at run
    · cases run
      rfl
    split at run
    next =>
      cases run
      rfl
    next pa found =>
      rw [whole] at found
      have below := (Pagetable.target_some found).1
      have room : 1 ≤ PGSIZE - (addr.toNat + i) % PGSIZE := by
        have := Nat.mod_lt (addr.toNat + i) (by decide : 0 < PGSIZE)
        omega
      rw [ih (.inr (by omega)) run (by omega), whole]
      exact (write_stored injective found room _).outside a (by omega)

/-- A read from the console stays inside the buffer, and returns no more than asked. -/
theorem consolereadLoop_memory (injective : pt.Injective) {target : Nat}
    {conss : List (Option Cons)} {r : Int}
    (run : consolereadLoop pt target left dst conss s = .ok (some r, s')) :
    r ≤ target ∧ ∀ a, a < dst.toNat ∨ dst.toNat + left ≤ a → pt.user s'.memory a = pt.user s.memory a := by
  induction left generalizing dst conss s with
  | zero =>
    cases run
    exact ⟨le_refl _, fun _ _ => rfl⟩
  | succ left ih =>
    rw [consolereadLoop_round] at run
    split at run
    next => cases run
    next =>
      cases run
      exact ⟨by omega, fun _ _ => rfl⟩
    next cons sleeps ready =>
      simp only at run
      split at run
      next =>
        cases run
        exact ⟨by omega, fun a _ => by split <;> rfl⟩
      next =>
        split at run
        next =>
          cases run
          exact ⟨by omega, fun _ _ => rfl⟩
        next pa found =>
          have below := (Pagetable.target_some found).1
          have room : 1 ≤ PGSIZE - dst.toNat % PGSIZE := by
            have := Nat.mod_lt dst.toNat (by decide : 0 < PGSIZE)
            omega
          have stored := write_stored (s := s.memory) injective found room fun _ => cons.buf
            (Cons.index cons.r)
          split at run
          next =>
            cases run
            exact ⟨by omega, fun a out => stored.outside a (by omega)⟩
          next =>
            obtain ⟨bound, kept⟩ := ih run
            have next : (dst + 1).toNat = dst.toNat + 1 :=
              toNat_add (j := 1) (by unfold MAXVA at below; omega)
            rw [next] at kept
            exact ⟨bound, fun a out => (kept a (by omega)).trans (stored.outside a (by omega))⟩

/-- What `readi` copies before the first address that it cannot write to. -/
theorem readLoop_spec (injective : pt.Injective) (ip : Nat) {off tot n fuel : Nat}
    (cons : s.volume.Consistent)
    (tot_le : tot ≤ n) (bound : off + (n - tot) ≤ MAXFILE * BSIZE) (enough : n - tot ≤ fuel)
    (present : ∀ x, off ≤ x → x < off + (n - tot) → s.volume.slot ip (dataSlot (x / BSIZE)) ≠ 0) :
    ∃ k s', k ≤ n - tot ∧ readLoop pt ip fuel off tot n dst s = .ok (if k = n - tot then n else -1, s') ∧
      (∀ x < k, pt.target (dst.toNat + x) ≠ none) ∧ (k < n - tot → pt.target (dst.toNat + k) = none) ∧
      Stored pt dst.toNat k ((s.volume.file ip).drop off) s.memory s'.memory := by
  induction fuel generalizing off tot dst s with
  | zero =>
    obtain rfl : tot = n := by omega
    exact ⟨0, s, by omega, by rw [if_pos (by omega)]; rfl, fun _ below => absurd below (Nat.not_lt_zero _),
      fun below => by omega, Stored.none ..⟩
  | succ fuel ih =>
    rw [readLoop]
    by_cases more : tot < n
    swap
    · obtain rfl : tot = n := by omega
      rw [if_neg more]
      exact ⟨0, s, by omega, by rw [if_pos (by omega)]; rfl, fun _ below => absurd below (Nat.not_lt_zero _),
        fun below => by omega, Stored.none ..⟩
    rw [if_pos more]
    have small : off / BSIZE < MAXFILE := Volume.index_lt (by omega)
    obtain ⟨r, mapped, loaded⟩ := Volume.bmap_spec (i := ip) cons small
    have here := present off (le_refl off) (by omega)
    have same := loaded.present here
    obtain ⟨m, hm⟩ : ∃ m, m = min (n - tot) (BSIZE - off % BSIZE) := ⟨_, rfl⟩
    have positive : off % BSIZE < BSIZE := Nat.mod_lt _ (by decide)
    obtain ⟨k, memory, k_le, copy, reach, stop, stored⟩ := copyout_spec injective dst.toNat
      ((s.volume.block (s.volume.slot ip (dataSlot (off / BSIZE)))).drop (off % BSIZE)) m s.memory
    -- The bytes of the block are those of the file.
    have bytes : ∀ x < k, (s.volume.block (s.volume.slot ip (dataSlot (off / BSIZE)))).drop (off % BSIZE) x =
        (s.volume.file ip).drop off x := fun x below => by
      obtain ⟨block, _, _, distance⟩ :=
        Volume.round_block off (by omega : m ≤ BSIZE - off % BSIZE) (by omega : off ≤ off + x) (by omega)
      simp only [Bytes.drop_apply, Volume.file, block]
      congr 1
      omega
    have path : (bmap ip (off / BSIZE) >>= fun addr =>
        if addr = 0 then return (tot : Int)
        else do
          let data := (← get).volume.block addr
          if (← onMemory (copyout pt dst.toNat (data.drop (off % BSIZE)) m)) = -1 then return -1
          else readLoop pt ip fuel (off + m) (tot + m) n (dst + UInt64.ofNat m) : SysM Int) s =
        if k = m then readLoop pt ip fuel (off + m) (tot + m) n (dst + UInt64.ofNat m) { s with memory }
        else .ok (-1, { s with memory }) := by
      show (bmap ip (off / BSIZE) s >>= _) = _
      rw [bmap, mapped, same]
      show ((if s.volume.slot ip (dataSlot (off / BSIZE)) = 0 then _ else _ : SysM Int) s) = _
      rw [if_neg here]
      show (onMemory _ _ >>= _) = _
      rw [onMemory, copy]
      by_cases all : k = m
      · rw [if_pos all, if_pos all]
        rfl
      · rw [if_neg all, if_neg all]
        rfl
    simp only [← hm]
    rw [path]
    by_cases all : k = m
    · rw [if_pos all]
      have last := target_below (reach (m - 1) (by omega))
      have next : (dst + UInt64.ofNat m).toNat = dst.toNat + m := toNat_add (by unfold MAXVA at last; omega)
      obtain ⟨k', s', k'_le, run, reach', stop', stored'⟩ :=
        @ih (dst + UInt64.ofNat m) { s with memory } (off + m)
        (tot + m) cons (by omega) (by omega) (by omega) fun x lower upper => present x (by omega) (by omega)
      rw [next] at reach' stop' stored'
      refine ⟨m + k', s', by omega, ?_, fun x below => ?_, fun short => ?_, ?_⟩
      · rw [run]
        congr 3
        exact propext (by omega)
      · by_cases early : x < m
        · exact reach x (by omega)
        · have later := reach' (x - m) (by omega)
          rwa [show dst.toNat + m + (x - m) = dst.toNat + x by omega] at later
      · rw [← Nat.add_assoc]
        exact stop' (by omega)
      · subst all
        refine (stored.congr bytes).append (stored'.congr fun x below => ?_)
        simp only [Bytes.drop_apply, Nat.add_assoc]
    · rw [if_neg all]
      exact ⟨k, { s with memory }, by omega, by rw [if_neg (by omega)], reach, fun _ => stop (by omega),
        stored.congr bytes⟩

/-- What `readi` does in a file without holes: with no byte to read it returns 0, and else it copies `n`
bytes, or as many as the file has, up to the first address that it cannot write to. -/
theorem readi_spec (injective : pt.Injective) (ip : Nat) {off n : Nat} (cons : s.volume.Consistent)
    (full : s.volume.NoHoles ip) (small : n < 2 ^ 32) :
    ((s.volume.inode ip).size ≤ off ∨ 2 ^ 32 ≤ off + n) ∧ readi pt ip dst off n s = .ok (0, s) ∨
    ∃ m k s', m = min n ((s.volume.inode ip).size - off) ∧ off ≤ (s.volume.inode ip).size ∧
    off + n < 2 ^ 32 ∧ k ≤ m ∧
      readi pt ip dst off n s = .ok (if k = m then m else -1, s') ∧
      (∀ x < k, pt.target (dst.toNat + x) ≠ none) ∧ (k < m → pt.target (dst.toNat + k) = none) ∧
      Stored pt dst.toNat k ((s.volume.file ip).drop off) s.memory s'.memory := by
  have sizes := cons.sizes ip
  have capacity : MAXFILE * BSIZE < 2 ^ 32 := by decide
  by_cases guard : (s.volume.inode ip).size < off ∨ (off + n) % 2 ^ 32 < off
  · refine .inl ⟨by omega, ?_⟩
    rw [readi]
    show (if (s.volume.inode ip).size < off ∨ (off + n) % 2 ^ 32 < off then _ else _ : SysM Int) s = _
    rw [if_pos guard]
    rfl
  refine .inr ?_
  obtain ⟨m, hm⟩ : ∃ m, m = min n ((s.volume.inode ip).size - off) := ⟨_, rfl⟩
  obtain ⟨k, s', k_le, run, reach, stop, stored⟩ := @readLoop_spec pt dst s injective ip off 0 m m cons
    (Nat.zero_le m) (by omega) (le_refl _)
    fun x lower upper => (full (x / BSIZE) (by have := Nat.div_mul_le_self x BSIZE; omega)).2
  rw [Nat.sub_zero] at k_le run stop
  refine ⟨m, k, s', hm, by omega, by omega, k_le, ?_, reach, stop, stored⟩
  rw [readi]
  show (if (s.volume.inode ip).size < off ∨ (off + n) % 2 ^ 32 < off then _ else _ : SysM Int) s = _
  have count : (if (s.volume.inode ip).size < (off + n) % 2 ^ 32 then (s.volume.inode
    ip).size - off else n) = m := by
    split <;> omega
  rw [if_neg guard, ← run]
  simp only [count]

end Bounds

/-- A read has delivered no more than it was asked for. -/
structure Bounded (pt : Pagetable) (f : File) (addr : UInt64) (n : Int) (s : System) (r : Int) (f' : File)
    (s' : System) : Prop where
  value : r ≤ max n 0
  bytes : ∀ va, va < addr.toNat ∨ addr.toNat + n.toNat ≤ va → pt.user s'.memory va = pt.user s.memory va
  advance : f.off.toNat ≤ f'.off.toNat ∧ (f'.off.toNat : Int) ≤ f.off.toNat + max n 0

/-- The count is negative, but the test for `off + n` wrapping around lets it pass as a large one, there are
bytes to read in the inode, and the first address that cannot be written to, if there is one before the end of
the file, comes after a byte of the user that differs from that of the file. -/
def Overreads (pt : Pagetable) (f : File) (addr : UInt64) (n : Int) (s : System) : Prop :=
  n < 0 ∧ f.readable = true ∧ f.type = .inode ∧ f.off.toNat + n < 0 ∧
    f.off.toNat < (s.volume.inode f.ip).size ∧
    ∀ k, f.off.toNat + k < (s.volume.inode f.ip).size → pt.target (addr.toNat + k) = none →
      ∃ x < k, pt.user s.memory (addr.toNat + x) ≠ some (s.volume.file f.ip (f.off.toNat + x))

section Fileread

variable {pt : Pagetable} {f f' : File} {addr : UInt64} {n r : Int} {s s' : System}
  {pipes : List (Option Pipe)}
  {conss : List (Option Cons)}

theorem piperead_bounded (injective : pt.Injective) (run : piperead pt addr n pipes s = .ok (some r, s')) :
    Bounded pt f addr n s r f s' := by
  rw [piperead_await] at run
  split at run
  next => cases run
  next =>
    cases run
    exact ⟨by omega, fun _ _ => rfl, le_refl _, by omega⟩
  next pi rest ready =>
    obtain ⟨k, t, copy, _, ending⟩ := pipereadCopy_spec pt addr n.toNat 0 (s.setPipe pi)
    rw [copy] at run
    cases run
    refine ⟨?_, fun va out => ?_, le_refl _, by omega⟩
    · have bound : k ≤ n.toNat := by rcases ending with ⟨all, _⟩ | ⟨short, _⟩ <;> omega
      omega
    · exact pipereadCopy_memory injective (.inl rfl) copy va (by omega)

theorem consoleread_bounded (injective : pt.Injective)
    (run : consoleread pt addr n conss s = .ok (some r, s')) :
    Bounded pt f addr n s r f s' := by
  obtain ⟨bound, kept⟩ := consolereadLoop_memory injective run
  exact ⟨by omega, kept, le_refl _, by omega⟩

theorem uint_lt (n : Int) : uint n < 2 ^ 32 := by
  unfold uint
  omega

theorem uint_of_nonneg (range : -2 ^ 31 ≤ n ∧ n < 2 ^ 31) (nonneg : 0 ≤ n) : uint n = n.toNat := by
  unfold uint
  omega

/-- `fileread` of an inode. -/
theorem fileread_inode (readable : f.readable = true) (type : f.type = .inode) :
    fileread pt f addr n pipes conss s = (readi pt f.ip addr f.off.toNat (uint n) s).map fun r =>
      ((some r.1, if 0 < r.1 then { f with off := f.off + UInt32.ofNat r.1.toNat } else f), r.2) := by
  unfold fileread
  rw [if_neg (by simp [readable]), type]
  show (readi pt f.ip addr f.off.toNat (uint n) s >>= _) = _
  cases readi pt f.ip addr f.off.toNat (uint n) s with
  | error e => rfl
  | ok r => rfl

/-- The offset after a read of an inode. -/
theorem advance_toNat {m : Nat} (room : f.off.toNat + m < 2 ^ 32) :
    (if 0 < (m : Int) then { f with off := f.off + UInt32.ofNat (m : Int).toNat } else f).off.toNat =
      f.off.toNat + m := by
  split
  next =>
    simp only [UInt32.toNat_add, UInt32.toNat_ofNat', Int.toNat_natCast]
    omega
  next => omega

theorem inode_bounded_iff (injective : pt.Injective) (cons : s.volume.Consistent)
    (full : s.volume.NoHoles f.ip)
    (range : -2 ^ 31 ≤ n ∧ n < 2 ^ 31) (readable : f.readable = true) (type : f.type = .inode)
    (run : fileread pt f addr n pipes conss s = .ok ((some r, f'), s')) :
    Bounded pt f addr n s r f' s' ↔ ¬ Overreads pt f addr n s := by
  have sizes := cons.sizes f.ip
  have capacity : MAXFILE * BSIZE < 2 ^ 31 := by decide
  rw [fileread_inode readable type] at run
  obtain ⟨none, read⟩ | ⟨m, k, t, count, inside, nowrap, k_le, read, reach, stop,
    stored⟩ := @readi_spec pt addr s
      injective f.ip f.off.toNat (uint n) cons full (uint_lt n)
  · rw [read] at run
    cases run
    refine ⟨fun _ past => ?_, fun _ => ⟨by omega, fun _ _ => rfl, le_refl _, ?_⟩⟩
    · obtain ⟨_, _, _, wrap, below, _⟩ := past
      unfold uint at none
      omega
    · simp
  rw [read] at run
  by_cases nonneg : 0 ≤ n
  · -- The count is what it seems.
    rw [uint_of_nonneg range nonneg] at count
    refine ⟨fun _ past => absurd past.1 (by omega), fun _ => ?_⟩
    by_cases all : k = m
    · rw [if_pos all] at run
      cases run
      refine ⟨by omega, fun va out => stored.outside va (by omega), ?_⟩
      rw [advance_toNat (by omega)]
      omega
    · rw [if_neg all] at run
      cases run
      exact ⟨by omega, fun va out => stored.outside va (by omega), le_refl _, by simp⟩
  · have large : m = (s.volume.inode f.ip).size - f.off.toNat := by
      unfold uint at count
      omega
    have wrap : f.off.toNat + n < 0 := by
      unfold uint at nowrap
      omega
    by_cases all : k = m
    · -- Everything up to the end of the file is read.
      rw [if_pos all] at run
      cases run
      by_cases some : m = 0
      · refine ⟨fun _ past => absurd past.2.2.2.2.1 (by omega), fun _ => ⟨by omega, fun va _ => ?_, ?_⟩⟩
        · exact stored.outside va (by omega)
        · rw [advance_toNat (by omega)]
          omega
      · refine ⟨fun bounded => ?_, fun least => ?_⟩
        · have := bounded.value
          omega
        · refine absurd ⟨by omega, readable, type, wrap, by omega, fun x below missing => ?_⟩ least
          exact absurd missing (reach x (by omega))
    · rw [if_neg all] at run
      cases run
      have missing := stop (by omega)
      refine ⟨fun bounded past => ?_, fun least => ?_⟩
      · obtain ⟨x, below, differs⟩ := past.2.2.2.2.2 k (by omega) missing
        refine differs ?_
        rw [← bounded.bytes _ (by omega), stored.inside x below, Bytes.drop_apply]
      · refine ⟨by omega, fun va _ => ?_, le_refl _, by simp⟩
        by_cases near : addr.toNat ≤ va ∧ va < addr.toNat + k
        · obtain ⟨x, rfl⟩ : ∃ x, va = addr.toNat + x := ⟨va - addr.toNat, by omega⟩
          rw [stored.inside x (by omega), Bytes.drop_apply]
          by_contra differs
          refine least ⟨by omega, readable, type, wrap, by omega, fun k' below missing' => ?_⟩
          have later : k ≤ k' := by
            by_contra early
            exact reach k' (by omega) missing'
          exact ⟨x, by omega, Ne.symm differs⟩
        · exact stored.outside va (by omega)

end Fileread

/-- A read delivers no more than asked exactly if it is not one of an inode with a negative count that passes
as a large one. -/
theorem fileread_bounded_iff (pt : Pagetable) (injective : pt.Injective) (f f' : File)
    (addr : UInt64) (n : Int)
    (range : -2 ^ 31 ≤ n ∧ n < 2 ^ 31) (pipes : List (Option Pipe)) (conss : List (Option Cons))
    (s s' : System) (r : Int)
    (cons : s.volume.Consistent) (full : s.volume.NoHoles f.ip)
    (run : fileread pt f addr n pipes conss s = .ok ((some r, f'), s')) :
    Bounded pt f addr n s r f' s' ↔ ¬ Overreads pt f addr n s := by
  have other : ∀ {t value}, f.type ≠ .inode → Bounded pt f addr n s value f t →
      (Bounded pt f addr n s value f t ↔ ¬ Overreads pt f addr n s) := fun different bounded =>
    ⟨fun _ past => different past.2.2.1, fun _ => bounded⟩
  have unchanged : (-1 : Int) ≤ max n 0 := by omega
  cases readable : f.readable with
  | false =>
    rw [fileread, if_pos readable] at run
    cases run
    refine ⟨fun _ past => ?_, fun _ => ⟨unchanged, fun _ _ => rfl, le_refl _, by omega⟩⟩
    rw [past.2.1] at readable
    cases readable
  | true =>
    cases type : f.type with
    | inode => exact inode_bounded_iff injective cons full range readable type run
    | none =>
      rw [fileread, if_neg (by simp [readable]), type] at run
      cases run
    | pipe =>
      rw [fileread, if_neg (by simp [readable]), type] at run
      replace run : (piperead pt addr n pipes s >>= fun r => .ok ((r.1, f), r.2)) =
        .ok ((some r, f'), s') := run
      cases read : piperead pt addr n pipes s with
      | error e =>
        rw [read] at run
        cases run
      | ok a =>
        obtain ⟨value, t⟩ := a
        rw [read] at run
        cases run
        exact other (by simp [type]) (piperead_bounded injective read)
    | device =>
      rw [fileread, if_neg (by simp [readable]), type] at run
      simp only at run
      split at run
      next =>
        cases run
        exact other (by simp [type]) ⟨unchanged, fun _ _ => rfl, le_refl _, by omega⟩
      next =>
        replace run : (consoleread pt addr n conss s >>= fun r => .ok ((r.1, f), r.2)) =
          .ok ((some r, f'), s') := run
        cases read : consoleread pt addr n conss s with
        | error e =>
          rw [read] at run
          cases run
        | ok a =>
          obtain ⟨value, t⟩ := a
          rw [read] at run
          cases run
          exact other (by simp [type]) (consoleread_bounded injective read)

/-- The user page 0 in a page of memory, and a file of two bytes that the descriptor is at the start of. -/
def userPage : Pagetable where
  root := 0
  mid _ := some 0
  low _ := some 0
  leaf p := if p = 0 then some ⟨PGSIZE, true, true, false, true⟩ else none

def twoBytes : System := { oneByte with
  volume := ⟨2000, fun b => decide (b = 100), fun _ _ => 7,
    fun i => if i = 5 then ⟨T_FILE, 1, 2, fun k => if k = 0 then 100 else 0⟩ else ⟨0, 0, 0, fun _ => 0⟩, 0, 0⟩ }

def twoBytesFile : File := ⟨.inode, true, 5, 0, 0⟩

theorem userPage_injective : userPage.Injective := by
  intro p q pte pte' first second _ _ _
  simp only [userPage] at first second
  split at first
  next zero =>
    split at second
    next zero' => rw [zero, zero']
    next => cases second
  next => cases first

theorem twoBytes_slot (i l : Nat) : twoBytes.volume.slot i l = if i = 5 ∧ l = 0 then 100 else 0 := by
  unfold Volume.slot twoBytes
  by_cases here : i = 5
  · by_cases start : l = 0
    · simp [here, start]
    · simp [here, start, NDIRECT]
  · simp [here]

theorem twoBytes_consistent : twoBytes.volume.Consistent := by
  refine ⟨fun i l j m _ _ same some => ?_, fun i l _ some => ?_, by decide, fun i => ?_⟩
  · rw [twoBytes_slot] at same some
    rw [twoBytes_slot] at same
    split at some
    next first =>
      rw [if_pos first] at same
      split at same
      next second => exact ⟨first.1.trans second.1.symm, first.2.trans second.2.symm⟩
      next => cases same
    next => exact absurd rfl some
  · rw [twoBytes_slot] at some ⊢
    split at some
    next first =>
      rw [if_pos first]
      decide
    next => exact absurd rfl some
  · simp only [twoBytes]
    split <;> decide

theorem twoBytes_noHoles : twoBytes.volume.NoHoles 5 := by
  intro bn below
  obtain rfl : bn = 0 := by
    simp only [twoBytes, if_true, BSIZE] at below
    omega
  exact ⟨by decide, by rw [twoBytes_slot]; decide⟩

theorem twoBytes_fileread (n : Int) (r : Option Int)
    (value : (fileread userPage twoBytesFile 0 n [] [] twoBytes).map (fun a => a.1.1) = .ok r) :
    ∃ f' s', fileread userPage twoBytesFile 0 n [] [] twoBytes = .ok ((r, f'), s') := by
  cases run : fileread userPage twoBytesFile 0 n [] [] twoBytes with
  | error e =>
    rw [run] at value
    cases value
  | ok a =>
    rw [run] at value
    obtain ⟨⟨_, f'⟩, s'⟩ := a
    cases value
    exact ⟨f', s', rfl⟩

/-- A read of -1 bytes at the start of the file returns 2. -/
theorem fileread_overreads : ∃ f' s', fileread userPage twoBytesFile 0 (-1) [] [] twoBytes =
    .ok ((some 2, f'), s') ∧
    ¬ Bounded userPage twoBytesFile 0 (-1) twoBytes 2 f' s' := by
  obtain ⟨f', s', run⟩ := twoBytes_fileread (-1) (some 2) (by decide +kernel)
  exact ⟨f', s', run, fun bounded => absurd bounded.value (by decide)⟩

theorem fileread_bounded_one : ∃ f' s', fileread userPage twoBytesFile 0 1 [] [] twoBytes =
    .ok ((some 1, f'), s') ∧
    Bounded userPage twoBytesFile 0 1 twoBytes 1 f' s' := by
  obtain ⟨f', s', run⟩ := twoBytes_fileread 1 (some 1) (by decide +kernel)
  exact ⟨f', s', run, (fileread_bounded_iff userPage userPage_injective twoBytesFile f' 0 1
    (by decide) [] [] twoBytes s'
    1 twoBytes_consistent twoBytes_noHoles run).mpr fun past => absurd past.1 (by decide)⟩

end Xv6.Reads
