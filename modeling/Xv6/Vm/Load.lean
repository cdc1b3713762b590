import Xv6.Vm.Copyin
import Xv6.Vm.Whole

/-! The segments of a program in a new page table. -/

namespace Xv6.Vm
open Function

/-- The user pages are in pages of `F`, each of which is free or in the page table only once. -/
structure Once (F : Nat → Prop) (s : Memory) (pt : Pagetable) : Prop where
  sound : pt.Sound
  user {q pte} : pt.leaf q = some pte → pte.perm.u = true → F pte.pa
  once {x} : F x → total s pt x ≤ 1

/-- The fields of a `struct proghdr` that `exec` reads. -/
def phType (ph : Bytes) : Nat := ph.le 0 4
def phFlags (ph : Bytes) : Nat := ph.le 4 4
def phOff (ph : Bytes) : Nat := ph.le 8 8
def phVaddr (ph : Bytes) : Nat := ph.le 16 8
def phFilesz (ph : Bytes) : Nat := ph.le 32 8
def phMemsz (ph : Bytes) : Nat := ph.le 40 8

/-- The permissions of the pages of a segment. -/
def phPerm (ph : Bytes) : Perm := ⟨true, (phFlags ph).testBit 1, (phFlags ph).testBit 0, true⟩

/-- A round of `loadSegments`. -/
def loadSegment (ip : File) (ph : Bytes) (pt : Pagetable) (sz : Nat) : VmM (Bool × Pagetable × Nat) :=
  if phType ph ≠ ELF_PROG_LOAD then pure (true, pt, sz)
  else if phMemsz ph < phFilesz ph then pure (false, pt, sz)
  else if (phVaddr ph + phMemsz ph) % 2 ^ 64 < phVaddr ph then pure (false, pt, sz)
  else if phVaddr ph % PGSIZE ≠ 0 then pure (false, pt, sz)
  else do
    let (sz1, pt) ← uvmalloc pt sz ((phVaddr ph + phMemsz ph) % 2 ^ 64) (phPerm ph).w (phPerm ph).x
    if sz1 = 0 then pure (false, pt, sz)
    else do
      let r ← loadseg pt (phVaddr ph) ip (phOff ph % 2 ^ 32) (phFilesz ph % 2 ^ 32)
      if r < 0 then pure (false, pt, sz1) else pure (true, pt, sz1)

/-- Pages of `F` have been added to a page table, and other pages have been written. -/
structure Grown (F : Nat → Prop) (s s' : Memory) (pt pt' : Pagetable) : Prop extends Step F s s' pt pt' where
  total (x) : total s' pt' x = total s pt x
  kept {q pte} : pt.leaf q = some pte → pt'.leaf q = some pte
  new {q pte} : pt'.leaf q = some pte → pt.leaf q = some pte ∨ F pte.pa

/-- What a round does with a segment that starts at the size so far or later. -/
structure Segment (ip : File) (ph : Bytes) (pt pt' : Pagetable) (sz sz' : Nat) (s s' : Memory) : Prop where
  fits : phFilesz ph ≤ phMemsz ph
  sz : sz' = phVaddr ph + phMemsz ph
  pages : ∀ va, phVaddr ph ≤ va → va < phVaddr ph + phMemsz ph → ∃ pa, pt'.leaf (va / PGSIZE) =
    some ⟨pa, phPerm ph⟩
  kept : ∀ va < phVaddr ph, pt.leaf (va / PGSIZE) ≠ none → pt'.user s' va = pt.user s va
  bytes : phFilesz ph < 2 ^ 32 → (0 < phFilesz ph → phOff ph < 2 ^ 32) → ∀ x < phFilesz ph,
    phOff ph + x < ip.size ∧ pt'.user s' (phVaddr ph + x) = some (ip.bytes (phOff ph + x))

/-- Program header `j` of those from an offset on. -/
def phdr (ip : File) (off j : Nat) : Bytes := ip.bytes.drop (off + proghdrSize * j)

/-- The bytes of a segment are those of the file, and its pages have its permissions. -/
structure Loaded (ip : File) (ph : Bytes) (pt : Pagetable) (s : Memory) : Prop where
  bytes : ∀ x < phFilesz ph, phOff ph + x < ip.size ∧ pt.user s (phVaddr ph + x) =
    some (ip.bytes (phOff ph + x))
  pages : ∀ va, phVaddr ph ≤ va → va < phVaddr ph + phMemsz ph → ∃ pa, pt.leaf (va / PGSIZE) =
    some ⟨pa, phPerm ph⟩

/-- The segments of a number of program headers are in ascending order, and they do not overlap. -/
def Ascending (ip : File) (off n : Nat) : Prop :=
  ∀ i j, i < j → j < n → phType (phdr ip off i) = ELF_PROG_LOAD →
  phType (phdr ip off j) = ELF_PROG_LOAD → phVaddr (phdr ip off i) + phMemsz (phdr ip off i) ≤
  phVaddr (phdr ip off j)

section Load

variable {F : Nat → Prop} {s s' : Memory} {pt pt' : Pagetable} {ip : File}
  {a b i n m q off offset sz va : Nat} {pte : Pte} {src : Bytes}

theorem Pagetable.Sound.framed (sound : pt.Sound) (here : pt.leaf q = some pte) :
    0 < tally pt.frame pte.pa (2 ^ 27) :=
  Tally.pos_iff.mpr ⟨q, sound.leaf_below (here ▸ Option.some_ne_none pte),
    by rw [Pagetable.frame, here, Option.map_some]⟩

/-- A user page is not free. -/
theorem Once.unlisted (once : Once F s pt) (here : pt.leaf q = some pte) (user : pte.perm.u = true) :
    pte.pa ∉ s.freelist := by
  intro listed
  have few := once.once (once.user here user)
  have free := List.count_pos_iff.mpr listed
  have framed := once.sound.framed here
  unfold total Pagetable.owned at few
  omega

theorem Once.injective (once : Once F s pt) : pt.Injective := by
  intro p q pte pte' here there user _ same
  have few := once.once (once.user here user)
  unfold total Pagetable.owned at few
  refine @Tally.unique pt.frame pte.pa p (2 ^ 27) (by omega) q
    (once.sound.leaf_below (here ▸ Option.some_ne_none pte))
    (once.sound.leaf_below (there ▸ Option.some_ne_none pte')) ?_ ?_
  · rw [Pagetable.frame, here, Option.map_some]
  · rw [Pagetable.frame, there, Option.map_some, same]

theorem walkaddr_gives (pt : Pagetable) (a : Nat) : Gives (walkaddr pt a) s fun pa s' => s' = s ∧
    (pa ≠ 0 → ∃ pte, pt.leaf (a / PGSIZE) = some pte ∧ pte.perm.u = true ∧ pte.pa = pa) := by
  unfold walkaddr
  refine Gives.ite (fun _ => Gives.pure ⟨rfl, fun some => absurd rfl some⟩) fun _ =>
    (look_gives pt a).bind fun r s₁ look => ?_
  obtain ⟨found, pt₁⟩ := r
  obtain ⟨rfl, rfl, -⟩ := look
  dsimp only
  cases here : pt₁.leaf (a / PGSIZE) with
  | none => exact Gives.pure ⟨rfl, fun some => absurd rfl some⟩
  | some pte =>
    refine Gives.pure ⟨rfl, fun some => ⟨pte, rfl, ?_⟩⟩
    by_cases user : (found && pte.perm.u) = true
    · rw [if_pos user]
      exact ⟨(Bool.and_eq_true _ _ ▸ user).2, rfl⟩
    · rw [if_neg user] at some
      exact absurd rfl some

/-- A write to the start of a user page. -/
theorem write_user (injective : pt.Injective) (here : pt.leaf (a / PGSIZE) = some pte)
    (user : pte.perm.u = true)
    (aligned : a % PGSIZE = 0) (small : n ≤ PGSIZE) (src : Bytes) :
    Stored pt a n src s (s.write pte.pa 0 n src) := by
  refine ⟨fun x below => ?_, fun b out => ?_⟩
  · obtain ⟨page, place⟩ := same_page a (by omega : x < PGSIZE - a % PGSIZE)
    rw [Pagetable.user, page, place, here]
    simp only [user, if_true, Memory.write, update_self]
    rw [Bytes.splice_inside (Nat.zero_le _) (by omega), aligned, Nat.zero_add, Nat.sub_zero]
  · unfold Pagetable.user
    cases there : pt.leaf (b / PGSIZE) with
    | none => rfl
    | some pte' =>
      by_cases user' : pte'.perm.u = true
      swap
      · simp [user']
      simp only [user', if_true, Memory.write]
      congr 1
      by_cases same : pte'.pa = pte.pa
      · have page := injective _ _ _ _ there here user' user same
        have whole := Nat.div_add_mod a PGSIZE
        have whole' := Nat.div_add_mod b PGSIZE
        rw [same, update_self]
        rw [page] at whole'
        exact Bytes.splice_outside (.inr (by omega))
      · rw [update_of_ne same]

/-- A read of all that was asked for is inside the file. -/
theorem count_whole (whole : ip.count off m = m) (some : 0 < m) (small : off < 2 ^ 32) (page : m < 2 ^ 32) :
    off + m ≤ ip.size := by
  unfold File.count at whole
  split at whole
  · omega
  · split at whole <;> omega

/-- The rounds of `loadseg`. -/
theorem loadLoop_gives (n i : Nat) (free : ∀ pa ∈ s.freelist, F pa)
    (own : ∀ q pte, pt.leaf q = some pte → pte.perm.u = true → F pte.pa) :
    Gives (loadLoop pt va ip offset sz n i) s fun r s' => Uses F s s' ∧ s'.freelist = s.freelist ∧
      (r = -1 ∨ r = 0 ∧ (pt.Injective → va % PGSIZE = 0 → i % PGSIZE = 0 → n = (sz - i + PGSIZE - 1) /
        PGSIZE → ip.size < 2 ^ 32 →
        (i < sz → offset + i < 2 ^ 32) →
          Stored pt (va + i) (sz - i) (ip.bytes.drop (offset + i)) s s' ∧
          (i < sz → offset + sz ≤ ip.size))) := by
  induction n generalizing s i with
  | zero =>
    refine Gives.pure ⟨.refl free, rfl, .inr ⟨rfl, fun _ _ _ none _ _ => ?_⟩⟩
    have done : sz - i = 0 := by
      unfold PGSIZE at none
      omega
    rw [done]
    exact ⟨.none .., fun more => by omega⟩
  | succ n ih =>
    unfold loadLoop
    refine (walkaddr_gives pt (va + i)).bind fun pa s₁ ⟨same, found⟩ => ?_
    subst same
    refine Gives.ite (fun _ => Gives.throw _) fun some => ?_
    obtain ⟨pte, here, user, rfl⟩ := found some
    have written : Gives (readi ip pte.pa ((offset + i) % 2 ^ 32) (min (sz - i) PGSIZE)) s₁ fun r s₂ =>
        r = ip.count ((offset + i) % 2 ^ 32) (min (sz - i) PGSIZE) ∧
          s₂ = s₁.write pte.pa 0 (ip.count ((offset + i) % 2 ^ 32) (min (sz - i) PGSIZE))
          (ip.bytes.drop ((offset + i) % 2 ^ 32)) :=
      Gives.of_run rfl ⟨rfl, rfl⟩
    refine written.bind fun r s₂ read => ?_
    obtain ⟨rfl, rfl⟩ := read
    have uses := write_uses free (own _ _ here user) 0 (ip.count ((offset + i) % 2 ^ 32)
      (min (sz - i) PGSIZE))
      (ip.bytes.drop ((offset + i) % 2 ^ 32))
    refine Gives.ite (fun _ => Gives.pure ⟨uses, rfl, .inl rfl⟩) fun all => ?_
    have whole := not_not.mp all
    refine (ih (i + PGSIZE) uses.free).mono fun r s₃ rest => ?_
    obtain ⟨uses', list, failed | ⟨done, stored⟩⟩ := rest
    · exact ⟨uses.trans uses', list, .inl failed⟩
    refine ⟨uses.trans uses', list, .inr ⟨done, fun injective aligned aligned' rounds size small => ?_⟩⟩
    have more : i < sz := by
      unfold PGSIZE at rounds
      omega
    have place : (offset + i) % 2 ^ 32 = offset + i := Nat.mod_eq_of_lt (small more)
    rw [place] at whole stored
    rw [whole] at stored
    have inside := count_whole whole (by unfold PGSIZE; omega) (small more) (by unfold PGSIZE; omega)
    have first : Stored pt (va + i) (min (sz - i) PGSIZE) (ip.bytes.drop (offset + i)) s₁
        (s₁.write pte.pa 0 (min (sz - i) PGSIZE) (ip.bytes.drop (offset + i))) :=
      write_user injective here user (by unfold PGSIZE at *; omega) (Nat.min_le_right _ _) _
    obtain ⟨next, last⟩ := stored injective aligned (by unfold PGSIZE at aligned' ⊢; omega)
      (by unfold PGSIZE at rounds ⊢; omega)
      size fun more' => by omega
    by_cases final : sz - i ≤ PGSIZE
    · rw [Nat.min_eq_left final] at first inside next
      have none : sz - (i + PGSIZE) = 0 := by omega
      rw [none] at next
      exact ⟨⟨fun x below => (next.outside _ (by omega)).trans (first.inside x below),
        fun b out => (next.outside b (by omega)).trans (first.outside b out)⟩, fun _ => by omega⟩
    · rw [Nat.min_eq_right (by omega)] at first next
      rw [← Nat.add_assoc, ← Nat.add_assoc, ← Bytes.drop_drop] at next
      have both := first.append next
      rw [show PGSIZE + (sz - (i + PGSIZE)) = sz - i by omega] at both
      exact ⟨both, fun _ => last (by omega)⟩

theorem loadSegments_succ (n off : Nat) (pt : Pagetable) (sz : Nat) : loadSegments ip (n + 1) off pt sz =
    if ip.count off proghdrSize ≠ proghdrSize then pure (false, pt, sz)
    else loadSegment ip (ip.bytes.drop off) pt sz >>= fun r =>
      if r.1 then loadSegments ip n ((off + proghdrSize) % 2 ^ 32) r.2.1 r.2.2 else pure (false,
        r.2.1, r.2.2) := by
  rw [loadSegments]
  split
  · rfl
  · unfold loadSegment phType phMemsz phFilesz phVaddr phOff phPerm phFlags
    dsimp only
    split
    · rfl
    split
    · rfl
    split
    · rfl
    split
    · rfl
    rw [bind_assoc]
    congr 1
    funext r
    obtain ⟨sz1, pt1⟩ := r
    dsimp only
    split
    · rfl
    · rw [bind_assoc]
      congr 1
      funext r
      split <;> rfl

theorem Grown.refl (free : ∀ pa ∈ s.freelist, F pa) (pt : Pagetable) : Grown F s s pt pt :=
  { (Uses.refl free).same pt with
    total := fun _ => rfl
    kept := id
    new := .inl }

theorem Grown.trans {s'' : Memory} {pt'' : Pagetable} (first : Grown F s s' pt pt')
    (second : Grown F s' s'' pt' pt'') :
    Grown F s s'' pt pt'' :=
  { first.toStep.trans second.toStep with
    total := fun x => (second.total x).trans (first.total x)
    kept := fun here => second.kept (first.kept here)
    new := fun here => (second.new here).elim first.new .inr }

theorem Once.grown (once : Once F s pt) (grown : Grown F s s' pt pt') : Once F s' pt' := by
  refine ⟨grown.sound once.sound, fun {q pte} here user => ?_, fun {x} own => ?_⟩
  · exact (grown.new here).elim (fun old => once.user old user) id
  · rw [grown.total]
    exact once.once own

/-- `uvmalloc` only adds pages. -/
theorem uvmalloc_grown (pt : Pagetable) (oldsz newsz : Nat) (w x : Bool) (small : oldsz ≤ MAXVA)
    (free : ∀ pa ∈ s.freelist, F pa) :
    Gives (uvmalloc pt oldsz newsz w x) s fun r s' => Grown F s s' pt r.2 ∧ r.1 ≤ MAXVA ∧
      (oldsz ≤ newsz → r.1 ≠ 0 → r.1 = newsz ∧ Takes s s' ∧
        (∀ q, q < PGROUNDUP oldsz / PGSIZE ∨ PGROUNDUP newsz / PGSIZE ≤ q → r.2.leaf q = pt.leaf q) ∧
        ∀ q, PGROUNDUP oldsz / PGSIZE ≤ q → q < PGROUNDUP newsz / PGSIZE →
          pt.leaf q = none ∧ ∃ pa ∈ s.freelist, r.2.leaf q = some ⟨pa, ⟨true, w, x, true⟩⟩) := by
  refine (uvmalloc_gives pt oldsz newsz w x small free).mono fun r s' result => ?_
  obtain ⟨step, balance, way⟩ := result
  have same (leaf : r.2.leaf = pt.leaf) : Grown F s s' pt r.2 :=
    { step with
      total := balance
      kept := fun here => leaf ▸ here
      new := fun here => .inl (leaf ▸ here) }
  obtain ⟨less, done, leaf⟩ | ⟨-, failed, leaf⟩ | ⟨-, done, inside, takes, kept, added⟩ := way
  · exact ⟨same leaf, done ▸ small, fun more => by omega⟩
  · exact ⟨same leaf, failed ▸ Nat.zero_le _, fun _ some => absurd failed some⟩
  · refine ⟨{ step with
        total := balance
        kept := fun {q pte} here => ?_
        new := fun {q pte} here => ?_ }, done ▸ inside, fun _ _ => ⟨done, takes, kept, added⟩⟩
    · by_cases new : PGROUNDUP oldsz / PGSIZE ≤ q ∧ q < PGROUNDUP newsz / PGSIZE
      · rw [(added q new.1 new.2).1] at here
        cases here
      · rw [kept q (by omega), here]
    · by_cases new : PGROUNDUP oldsz / PGSIZE ≤ q ∧ q < PGROUNDUP newsz / PGSIZE
      · obtain ⟨-, pa, listed, there⟩ := added q new.1 new.2
        rw [there] at here
        obtain rfl := Option.some.inj here
        exact .inr (free pa listed)
      · rw [kept q (by omega)] at here
        exact .inl here

/-- What user programs have on pages that are there stays when free pages are taken. -/
theorem Once.user_kept (once : Once F s pt) (takes : Takes s s') (kept : ∀ q pte, pt.leaf q = some pte →
      pt'.leaf q = some pte)
    (there : pt.leaf (va / PGSIZE) ≠ none) : pt'.user s' va = pt.user s va := by
  obtain ⟨pte, here⟩ := Option.ne_none_iff_exists'.mp there
  unfold Pagetable.user
  rw [here, kept _ _ here]
  by_cases user : pte.perm.u = true
  · simp only [user, if_true, takes.others (once.unlisted here user)]
  · simp [user]

/-- The pages of a segment are among those that are added for it. -/
theorem segment_page {vaddr memsz : Nat} (aligned : vaddr % PGSIZE = 0) (order : sz ≤ vaddr)
    (lower : vaddr ≤ va)
    (upper : va < vaddr + memsz) (inside : vaddr + memsz ≤ MAXVA) :
    PGROUNDUP sz / PGSIZE ≤ va / PGSIZE ∧ va / PGSIZE < PGROUNDUP (vaddr + memsz) / PGSIZE := by
  unfold PGROUNDUP MAXVA PGSIZE at *
  omega

/-- A program header is skipped, or its segment is loaded, or the program is bad. -/
theorem loadSegment_gives (once : Once F s pt) (small : sz ≤ MAXVA) (free : ∀ pa ∈ s.freelist, F pa)
    (short : ip.size < 2 ^ 32) (ph : Bytes) :
    Gives (loadSegment ip ph pt sz) s fun r s' => Grown F s s' pt r.2.1 ∧ r.2.2 ≤ MAXVA ∧
      (r.1 = true → phType ph ≠ ELF_PROG_LOAD ∧ r.2.1 = pt ∧ r.2.2 = sz ∧ s' = s ∨
        phType ph = ELF_PROG_LOAD ∧ (sz ≤ phVaddr ph → Segment ip ph pt r.2.1 sz r.2.2 s s')) := by
  have none : Gives (pure (false, pt, sz) : VmM (Bool × Pagetable × Nat)) s fun r s' =>
      Grown F s s' pt r.2.1 ∧ r.2.2 ≤ MAXVA ∧
      (r.1 = true → phType ph ≠ ELF_PROG_LOAD ∧ r.2.1 = pt ∧ r.2.2 = sz ∧ s' = s ∨
        phType ph = ELF_PROG_LOAD ∧ (sz ≤ phVaddr ph → Segment ip ph pt r.2.1 sz r.2.2 s s')) :=
    Gives.pure ⟨.refl free pt, small, nofun⟩
  unfold loadSegment
  refine Gives.ite (fun skip => Gives.pure ⟨.refl free pt, small, fun _ => .inl ⟨skip, rfl, rfl, rfl⟩⟩)
    fun load =>
    Gives.ite (fun _ => none) fun fits => Gives.ite (fun _ => none) fun above => Gives.ite
      (fun _ => none) fun aligned => ?_
  have whole : (phVaddr ph + phMemsz ph) % 2 ^ 64 = phVaddr ph + phMemsz ph := by
    have bound : phVaddr ph < 256 ^ 8 := Bytes.le_lt ph 16 8
    have bound' : phMemsz ph < 256 ^ 8 := Bytes.le_lt ph 40 8
    omega
  rw [whole]
  refine (uvmalloc_grown pt sz _ _ _ small free).bind fun r s₁ alloc => ?_
  obtain ⟨grown, inside, added⟩ := alloc
  refine Gives.ite (fun _ => Gives.pure ⟨grown, small, nofun⟩) fun some => ?_
  have once₁ := once.grown grown
  refine (loadLoop_gives _ 0 grown.free fun q pte => once₁.user).bind fun r' s₂ loaded => ?_
  obtain ⟨uses, list, way⟩ := loaded
  have all : Grown F s s₂ pt r.2 := { grown.toStep.trans (uses.same r.2) with
    total := fun x => by
      have before := grown.total x
      unfold total at before ⊢
      rw [list, before]
    kept := grown.kept
    new := grown.new }
  refine Gives.ite (fun _ => Gives.pure ⟨all, inside, nofun⟩) fun fine => Gives.pure ⟨all, inside,
    fun _ => .inr ⟨not_not.mp load, fun order => ?_⟩⟩
  obtain failed | ⟨-, stored⟩ := way
  · omega
  obtain ⟨size, takes, -, pages⟩ := added (by omega) some
  have start := not_not.mp aligned
  rw [size] at inside
  rw [Nat.add_zero, Nat.add_zero, Nat.sub_zero] at stored
  obtain ⟨stored, last⟩ := stored once₁.injective start (Nat.zero_mod _) rfl short fun _ =>
    Nat.mod_lt _ (Nat.two_pow_pos 32)
  exact {
    fits := Nat.le_of_not_lt fits
    sz := size
    pages := fun va lower upper => by
      obtain ⟨low, high⟩ := segment_page start order lower upper inside
      obtain ⟨-, pa, -, here⟩ := pages (va / PGSIZE) low high
      exact ⟨pa, here⟩
    kept := fun va below there =>
      (stored.outside va (.inl below)).trans (once.user_kept takes (fun _ _ => grown.kept) there)
    bytes := fun little early x below => by
      rw [Nat.mod_eq_of_lt little, Nat.mod_eq_of_lt (early (by omega))] at stored last
      have within := last (by omega)
      exact ⟨by omega, stored.inside x below⟩ }

theorem loadSegments_gives (n off : Nat) (once : Once F s pt) (small : sz ≤ MAXVA)
    (free : ∀ pa ∈ s.freelist, F pa)
    (short : ip.size < 2 ^ 32) :
    Gives (loadSegments ip n off pt sz) s fun r s' => Grown F s s' pt r.2.1 ∧ r.2.2 ≤ MAXVA := by
  induction n generalizing off pt sz s with
  | zero => exact Gives.pure ⟨.refl free pt, small⟩
  | succ n ih =>
    rw [loadSegments_succ]
    refine Gives.ite (fun _ => Gives.pure ⟨.refl free pt, small⟩) fun _ => ?_
    refine (loadSegment_gives once small free short _).bind fun r s₁ ⟨grown, small₁, _⟩ => ?_
    refine Gives.ite (fun _ => ?_) fun _ => Gives.pure ⟨grown, small₁⟩
    exact (ih _ (once.grown grown) small₁ grown.free).mono fun r' s₂ ⟨grown', small₂⟩ =>
      ⟨grown.trans grown', small₂⟩

theorem phdr_succ (ip : File) (off j : Nat) : phdr ip (off + proghdrSize) j = phdr ip off (j + 1) := by
  unfold phdr
  congr 1
  rw [Nat.mul_succ]
  omega

/-- Where the offsets and sizes in the headers fit 32 bits, the segments are loaded. -/
theorem loadSegments_loads (n off : Nat) (once : Once F s pt) (small : sz ≤ MAXVA)
    (free : ∀ pa ∈ s.freelist, F pa)
    (short : ip.size < 2 ^ 32) (start : 0 < n → off < 2 ^ 32) (ascending : Ascending ip off n)
    (above : ∀ j < n, phType (phdr ip off j) = ELF_PROG_LOAD → sz ≤ phVaddr (phdr ip off j))
    (little : ∀ j < n, phType (phdr ip off j) = ELF_PROG_LOAD →
      phFilesz (phdr ip off j) < 2 ^ 32 ∧ (0 < phFilesz (phdr ip off j) → phOff (phdr ip off j) < 2 ^ 32)) :
    Gives (loadSegments ip n off pt sz) s fun r s' => Grown F s s' pt r.2.1 ∧ (r.1 = true →
      (0 < n → off + proghdrSize * n ≤ ip.size) ∧
      (∀ j < n, phType (phdr ip off j) = ELF_PROG_LOAD → Loaded ip (phdr ip off j) r.2.1 s') ∧
      (sz ≤ r.2.2 ∧ ∀ j < n, phType (phdr ip off j) = ELF_PROG_LOAD → phFilesz (phdr ip off j) ≤
      phMemsz (phdr ip off j) ∧
        phVaddr (phdr ip off j) + phMemsz (phdr ip off j) ≤ r.2.2) ∧
      ∀ va, (∀ j < n, phType (phdr ip off j) = ELF_PROG_LOAD → va < phVaddr (phdr ip off j)) →
      pt.leaf (va / PGSIZE) ≠ none →
        r.2.1.user s' va = pt.user s va) := by
  induction n generalizing off pt sz s with
  | zero => exact Gives.pure ⟨.refl free pt,
      fun _ => ⟨fun some => by omega, fun _ below => by omega, ⟨le_rfl, fun _ below => by omega⟩, fun _ _ _ => rfl⟩⟩
  | succ n ih =>
    rw [loadSegments_succ]
    refine Gives.ite (fun _ => Gives.pure ⟨.refl free pt, nofun⟩) fun all => ?_
    have inside := count_whole (not_not.mp all) (by decide) (start (Nat.succ_pos n)) (by decide)
    refine (loadSegment_gives once small free short _).bind fun r s₁ ⟨grown, small₁, way⟩ => ?_
    refine Gives.ite (fun ok => ?_) fun failed => Gives.pure ⟨grown, nofun⟩
    have next : (off + proghdrSize) % 2 ^ 32 = off + proghdrSize := Nat.mod_eq_of_lt (by omega)
    have first : ip.bytes.drop off = phdr ip off 0 := rfl
    rw [next]
    rw [first] at way
    have above' : ∀ j < n, phType (phdr ip (off + proghdrSize) j) = ELF_PROG_LOAD →
        r.2.2 ≤ phVaddr (phdr ip (off + proghdrSize) j) := by
      intro j below load
      rw [phdr_succ] at load ⊢
      obtain ⟨-, -, same, -⟩ | ⟨load₀, segment⟩ := way ok
      · exact same ▸ above (j + 1) (by omega) load
      · rw [(segment (above 0 (by omega) load₀)).sz]
        exact ascending 0 (j + 1) (by omega) (by omega) load₀ load
    refine (ih (off + proghdrSize) (once.grown grown) small₁ grown.free (fun _ => by omega)
      (fun i j order below => ?_) above'
      fun j below => ?_).mono fun r' s₂ ⟨grown', rest⟩ => ⟨grown.trans grown', fun ok' => ?_⟩
    · rw [phdr_succ, phdr_succ]
      exact ascending (i + 1) (j + 1) (by omega) (by omega)
    · rw [phdr_succ]
      exact little (j + 1) (by omega)
    obtain ⟨inside', loaded, ⟨more, sizes⟩, kept⟩ := rest ok'
    simp only [phdr_succ] at loaded sizes kept
    have there {va : Nat} (there : pt.leaf (va / PGSIZE) ≠ none) : r.2.1.leaf (va / PGSIZE) ≠ none := by
      obtain ⟨pte, here⟩ := Option.ne_none_iff_exists'.mp there
      exact grown.kept here ▸ Option.some_ne_none pte
    refine ⟨fun _ => ?_, fun j below load => ?_, ⟨?_, fun j below load => ?_⟩, fun va low mapped => ?_⟩
    · rw [Nat.mul_succ]
      by_cases last : n = 0
      · rw [last]
        omega
      · have more := inside' (by omega)
        omega
    · cases j with
      | zero =>
        obtain ⟨skip, -⟩ | ⟨-, segment⟩ := way ok
        · exact absurd load skip
        have segment := segment (above 0 (by omega) load)
        have fits := segment.fits
        have later {va : Nat} (low : phVaddr (phdr ip off 0) ≤ va)
          (high : va < phVaddr (phdr ip off 0) + phMemsz (phdr ip off 0)) :
            r'.2.1.user s₂ va = r.2.1.user s₁ va := by
          obtain ⟨pa, here⟩ := segment.pages va low high
          refine kept va (fun j below load' => ?_) (here ▸ Option.some_ne_none _)
          have order := ascending 0 (j + 1) (by omega) (by omega) load load'
          omega
        refine ⟨fun x small => ?_, fun va low high => ?_⟩
        · obtain ⟨within, byte⟩ := segment.bytes (little 0 (by omega) load).1
            (little 0 (by omega) load).2 x small
          exact ⟨within, (later (by omega) (by omega)).trans byte⟩
        · obtain ⟨pa, here⟩ := segment.pages va low high
          exact ⟨pa, grown'.kept here⟩
      | succ j => exact loaded j (by omega) load
    · obtain ⟨-, -, same, -⟩ | ⟨load, segment⟩ := way ok
      · exact same ▸ more
      · have order := above 0 (by omega) load
        have size := (segment order).sz
        omega
    · cases j with
      | zero =>
        obtain ⟨skip, -⟩ | ⟨-, segment⟩ := way ok
        · exact absurd load skip
        have segment := segment (above 0 (by omega) load)
        exact ⟨segment.fits, segment.sz ▸ more⟩
      | succ j => exact sizes j (by omega) load
    · rw [kept va (fun j below => low (j + 1) (by omega)) (there mapped)]
      obtain ⟨-, pt₁, -, s₁⟩ | ⟨load, segment⟩ := way ok
      · rw [pt₁, s₁]
      · exact (segment (above 0 (by omega) load)).kept va (low 0 (by omega) load) mapped

end Load

end Xv6.Vm
