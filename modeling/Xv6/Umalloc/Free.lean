import Xv6.Umalloc.Tiles

namespace Xv6.Umalloc
open Function

section Search

variable {next : Nat → Nat} {a x bp : Nat} {l r : List Nat}

/-- On a circle that goes up but for one step, the loop of `free` stops at the last node below `bp`, and only
there. -/
theorem place_iff (circle : Trail next a (l ++ r) a) (sorted : (a :: (l ++ r)).Pairwise (· < ·))
    (below : ∀ y ∈ a :: l, y < bp) (above : ∀ y ∈ r, bp < y) (member : x ∈ a :: (l ++ r)) :
    (x < bp ∧ bp < next x ∨ next x ≤ x ∧ (x < bp ∨ bp < next x)) ↔ x = l.getLastD a := by
  have least : ∀ y ∈ a :: (l ++ r), a ≤ y := fun y inside => by
    rcases List.mem_cons.mp inside with rfl | later
    · exact le_refl y
    · exact ((List.pairwise_cons.mp sorted).1 y later).le
  have lower : (a :: l).Pairwise (· < ·) := by
    rw [← List.cons_append] at sorted
    exact (List.pairwise_append.mp sorted).1
  have start := below a (List.mem_cons_self ..)
  -- the nodes up to `bp` lead to one above it or back to `a`
  obtain ⟨c, path, end'⟩ : ∃ c, Trail next a l c ∧ (bp < c ∨ c = a) := by
    cases r with
    | nil => exact ⟨a, by rwa [List.append_nil] at circle, .inr rfl⟩
    | cons y r => exact ⟨y, (Trail.append_iff.mp circle).1, .inl (above y (List.mem_cons_self ..))⟩
  have here := least x member
  rw [← List.cons_append, List.mem_append] at member
  rcases member with first | second
  · have small := below x first
    rcases path.next_sorted lower first with ⟨last, leads⟩ | ⟨inside, less⟩
    · refine iff_of_true ?_ last
      rw [leads]
      omega
    · have less' := below _ (List.mem_cons_of_mem a inside)
      refine iff_of_false (by omega) fun last => ?_
      rw [last, path.last] at inside
      rcases end' with high | back
      · have low := below c (List.mem_cons_of_mem a inside)
        omega
      · rw [back] at inside
        exact lt_irrefl a ((List.pairwise_cons.mp lower).1 a inside)
  · have large := above x second
    refine iff_of_false (fun stops => ?_) fun last => ?_
    · rcases circle.next_sorted sorted (List.mem_cons_of_mem a (List.mem_append_right l second)) with
        ⟨-, leads⟩ | ⟨-, less⟩
      · rw [leads] at stops
        omega
      · omega
    · have small := below x (last ▸ Trail.mem_last)
      omega

end Search

section Free

variable {g : Program} {s : Heap} {given : List (Nat × Nat)} {tiles l r : List Tile} {n m p : Nat}

theorem findPlace_eq (tiled : Tiled g s given (l ++ ⟨n, some m⟩ :: r)) :
    s.findPlace (stop g.top l) (s.rounds g) = some ((frees g.top l).getLastD g.base) := by
  have circle := tiled.circle
  have sorted := tiled.sorted
  have few := tiled.few
  have positive := tiled.positive
  have low : ∀ t ∈ l, 0 < t.size := fun t member => positive t (List.mem_append_left _ member)
  have high : ∀ t ∈ r, 0 < t.size := fun t member =>
    positive t (List.mem_append_right _ (List.mem_cons_of_mem _ member))
  have own : 0 < n := positive ⟨n, some m⟩ (List.mem_append_right _ (List.mem_cons_self ..))
  obtain ⟨others, way, perm⟩ := circle.around tiled.rover
  have short : others.length < s.rounds g := by
    have same := perm.length_eq
    have fewer := frees_length g.top (l ++ ⟨n, some m⟩ :: r)
    rw [List.length_cons, List.length_cons] at same
    omega
  rw [frees_append, frees_used] at circle sorted perm
  have below : ∀ y ∈ g.base :: frees g.top l, y < stop g.top l := fun y member => by
    rcases List.mem_cons.mp member with rfl | inside
    · exact lt_of_lt_of_le (base_lt g) (Nat.le_add_right ..)
    · exact (frees_bounds low inside).2
  have above : ∀ y ∈ frees (plus (stop g.top l) n) r, stop g.top l < y := fun y member => by
    refine lt_of_lt_of_le ?_ (frees_bounds high member).1
    unfold plus headerSize
    omega
  have meets := fun x member => place_iff (x := x) circle sorted below above member
  have last : (frees g.top l).getLastD g.base ∈ g.base ::
    (frees g.top l ++ frees (plus (stop g.top l) n) r) := by
    rw [← List.cons_append]
    exact List.mem_append_left _ Trail.mem_last
  obtain ⟨x, member, good, run⟩ := @Trail.walk_some _ _ _ _ _ (s.between (stop g.top l)) _ way short
    ⟨_, perm.mem_iff.mpr last, decide_eq_true ((meets _ last).mpr rfl)⟩
  rw [Heap.findPlace, run, (meets x (perm.mem_iff.mp member)).mp (of_decide_eq_true good)]

theorem joinUpper_brk (s : Heap) (bp p : Nat) : (s.joinUpper bp p).brk = s.brk := by
  unfold Heap.joinUpper
  split <;> rfl

theorem joinLower_brk (s : Heap) (bp p : Nat) : (s.joinLower bp p).brk = s.brk := by
  unfold Heap.joinLower
  split <;> rfl

/-- The block at the end of the lower tiles has been joined with a free one above it, and leads to the next
free one, but none leads to it. -/
structure Opened (g : Program) (s : Heap) (l : List Tile) (n : Nat) (r : List Tile) : Prop where
  ended : stop g.top (l ++ ⟨n, none⟩ :: r) = s.brk
  limit : s.brk ≤ g.top + 2 ^ 27
  positive : ∀ t ∈ l ++ ⟨n, none⟩ :: r, 0 < t.size
  lower : l.IsChain Parted
  upper : (⟨n, none⟩ :: r).IsChain Parted
  headers : ∀ p ∈ placed g.top (l ++ ⟨n, none⟩ :: r), (s.mem p.1).size = p.2.size
  first : (s.mem g.base).size = 0
  below : ∃ c, Trail s.ptr g.base (frees g.top l) c
  above : Trail s.ptr (stop g.top l) (frees (plus (stop g.top l) n) r) g.base
  asked : ∀ t ∈ l ++ r, ∀ n, t.owner = some n → n + headerSize ≤ headerSize * t.size

/-- The sizes are as in the tiles, but for one that has changed. -/
theorem headers_change {s' : Heap} {q N : Nat} {owner : Option Nat} (hq : q = stop g.top l)
    (positive : ∀ t ∈ l, 0 < t.size) (old : ∀ p ∈ placed g.top l, (s.mem p.1).size = p.2.size)
    (rest : ∀ p ∈ placed (plus q N) r, (s.mem p.1).size = p.2.size) (some : 0 < N)
    (sizes : ∀ x, (s'.mem x).size = if x = q then N else (s.mem x).size) :
    ∀ p ∈ placed g.top (l ++ ⟨N, owner⟩ :: r), (s'.mem p.1).size = p.2.size := by
  subst hq
  intro p member
  rw [placed_append, placed] at member
  rw [sizes]
  rcases List.mem_append.mp member with first | later
  · have bounds := placed_bounds first
    have full := positive _ bounds.2.2
    have apart : p.1 ≠ stop g.top l := fun same => by
      unfold plus headerSize at bounds
      omega
    rw [if_neg apart]
    exact old p first
  · rcases List.mem_cons.mp later with rfl | last
    · exact if_pos rfl
    · have bounds := placed_bounds last
      have apart : p.1 ≠ stop g.top l := fun same => by
        unfold plus headerSize at bounds
        dsimp only at bounds
        omega
      rw [if_neg apart]
      exact rest p last

/-- The block has got its new size and its link, and nothing else has changed. -/
theorem Opened.intro {s' : Heap} {N bp : Nat} {r' : List Tile}
    (tiled : Tiled g s given (l ++ ⟨n, some m⟩ :: r))
    (hbp : bp = stop g.top l) (more : n ≤ N) (ended : stop (plus bp N) r' = stop (plus bp n) r)
    (part : placed (plus bp N) r' ⊆ placed (plus bp n) r) (upper : (⟨N, none⟩ :: r').IsChain Parted)
    (ptr : ∀ x, x ≠ bp → s'.ptr x = s.ptr x)
    (sizes : ∀ x, (s'.mem x).size = if x = bp then N else (s.mem x).size) (brk : s'.brk = s.brk)
    (above : Trail s'.ptr bp (frees (plus bp N) r') g.base) : Opened g s' l N r' := by
  have start := base_lt g
  subst hbp
  have base : g.base ≠ stop g.top l := by
    have reach : g.top ≤ stop g.top l := Nat.le_add_right ..
    omega
  have low : ∀ t ∈ l, 0 < t.size := fun t member => tiled.positive t (List.mem_append_left _ member)
  have own : 0 < n := tiled.positive ⟨n, some m⟩ (List.mem_append_right _ (List.mem_cons_self ..))
  have inside : ∀ t ∈ r', t ∈ l ++ ⟨n, some m⟩ :: r := fun t member => by
    obtain ⟨x, place⟩ := mem_placed (a := plus (stop g.top l) N) member
    exact List.mem_append_right _ (List.mem_cons_of_mem _ (placed_bounds (part place)).2.2)
  have headers := tiled.headers
  rw [placed_append, placed] at headers
  obtain ⟨c, before⟩ := (frees_append .. ▸ tiled.circle : Trail s.ptr g.base _ g.base).take
  refine ⟨?_, brk ▸ tiled.limit, fun t member => ?_, (List.isChain_append.mp tiled.merged).1, upper,
    fun p member => ?_,
    ?_, ⟨c, before.congr fun x member => ptr x fun same => ?_⟩, above, fun t member => ?_⟩
  · rw [stop_append, stop_cons, ended, brk, ← tiled.ended, stop_append, stop_cons]
  · rcases List.mem_append.mp member with first | later
    · exact low t first
    · rcases List.mem_cons.mp later with rfl | last
      · exact lt_of_lt_of_le own more
      · exact tiled.positive t (inside t last)
  · exact headers_change rfl low (fun q inside => headers q (List.mem_append_left _ inside))
      (fun q inside => headers q (List.mem_append_right _ (List.mem_cons_of_mem _ (part inside))))
      (lt_of_lt_of_le own more) sizes p member
  · rw [sizes, if_neg base]
    exact tiled.first
  · rcases List.mem_cons.mp member with here | later
    · exact base (here.symm.trans same)
    · exact (frees_bounds low later).2.ne same
  · rcases List.mem_append.mp member with first | last
    · exact tiled.asked t (List.mem_append_left _ first)
    · exact tiled.asked t (inside t last)

theorem joinUpper_spec (tiled : Tiled g s given (l ++ ⟨n, some m⟩ :: r)) : ∃ N r', n ≤ N ∧
    r'.length ≤ r.length ∧
    useds (plus (stop g.top l) N) r' = useds (plus (stop g.top l) n) r ∧
    Opened g (s.joinUpper (stop g.top l) ((frees g.top l).getLastD g.base)) l N r' := by
  have circle := tiled.circle
  have headers := tiled.headers
  have start := base_lt g
  obtain ⟨bp, hbp⟩ : ∃ bp, bp = stop g.top l := ⟨_, rfl⟩
  have reach : g.top ≤ bp := hbp ▸ Nat.le_add_right ..
  rw [frees_append, frees_used] at circle
  rw [placed_append, placed] at headers
  rw [← hbp] at circle headers ⊢
  have size : (s.mem bp).size = n :=
    headers (bp, ⟨n, some m⟩) (List.mem_append_right _ (List.mem_cons_self ..))
  have rest := circle.drop
  obtain ⟨p, hp⟩ : ∃ p, p = (frees g.top l).getLastD g.base := ⟨_, rfl⟩
  rw [← hp] at rest ⊢
  have merged := (List.isChain_append.mp tiled.merged).2.1
  have own : 0 < n := tiled.positive ⟨n, some m⟩ (List.mem_append_right _ (List.mem_cons_self ..))
  have high : ∀ t ∈ r, 0 < t.size := fun t member =>
    tiled.positive t (List.mem_append_right _ (List.mem_cons_of_mem _ member))
  by_cases joins : ∃ k r', r = ⟨k, none⟩ :: r'
  · -- the block above is free
    obtain ⟨k, r', rfl⟩ := joins
    rw [frees_free, Trail.cons_iff] at rest
    obtain ⟨leads, rest⟩ := rest
    have high' : ∀ t ∈ r', 0 < t.size := fun t member => high t (List.mem_cons_of_mem _ member)
    have upper : (s.mem (plus bp n)).size = k := headers (plus bp n, ⟨k, none⟩) (by simp [placed])
    have small : n + k < 2 ^ 32 := by
      have ended := tiled.ended
      have limit := tiled.limit
      rw [stop_append, stop_cons, stop_cons, ← hbp] at ended
      have reach' : plus (plus bp n) k ≤ stop (plus (plus bp n) k) r' := Nat.le_add_right ..
      unfold plus headerSize at *
      dsimp only at *
      omega
    have joined : s.joinUpper bp p = (s.setSize bp (n + k)).setPtr bp (s.ptr (plus bp n)) := by
      rw [Heap.joinUpper, size, leads, if_pos rfl, upper]
      simp only [Heap.setSize_ptr, leads]
    refine ⟨n + k, r', Nat.le_add_right n k, Nat.le_succ _, by rw [useds_free, plus_plus], ?_⟩
    rw [joined]
    refine Opened.intro tiled hbp (Nat.le_add_right n k) (by rw [stop_cons, plus_plus]) ?_ ?_
      (fun x apart => ?_)
      (fun x => ?_) rfl ?_
    · rw [placed, plus_plus]
      exact List.subset_cons_self ..
    · obtain ⟨next, later⟩ := List.isChain_cons.mp (List.isChain_cons.mp merged).2
      exact List.isChain_cons.mpr ⟨next, later⟩
    · rw [Heap.setPtr_ptr, Heap.setSize_ptr, update_of_ne apart]
    · rw [Heap.setPtr_size, Heap.setSize_size, Nat.mod_eq_of_lt small]
    · rw [← plus_plus, Heap.setPtr_ptr, Heap.setSize_ptr]
      refine rest.replace (update_self ..) fun x member => update_of_ne ?_ ..
      have bound := (frees_bounds high' member).1
      unfold plus headerSize at bound
      omega
  · have used : ∀ t ∈ r.head?, t.owner ≠ none := fun t member none => by
      obtain ⟨r', rfl⟩ : ∃ r', r = t :: r' := List.head?_eq_some_iff.mp member
      exact joins ⟨t.size, r', by rw [← none]⟩
    have distant : ∀ x ∈ frees (plus bp n) r, plus bp n < x := fun x => frees_distant used high
    have apart : plus bp n ≠ s.ptr p := fun same => by
      cases free : frees (plus bp n) r with
      | nil =>
        rw [free, Trail.nil_iff] at rest
        unfold plus headerSize at same
        omega
      | cons y others =>
        rw [free, Trail.cons_iff] at rest
        have less := distant y (free ▸ List.mem_cons_self ..)
        omega
    have joined : s.joinUpper bp p = s.setPtr bp (s.ptr p) := by
      rw [Heap.joinUpper, size, if_neg apart]
    refine ⟨n, r, le_refl n, le_refl _, rfl, ?_⟩
    rw [joined]
    refine Opened.intro tiled hbp (le_refl n) rfl (fun _ => id) ?_ (fun x apart => ?_) (fun x => ?_) rfl ?_
    · exact List.isChain_cons.mpr ⟨fun t member => .inr (used t member), (List.isChain_cons.mp merged).2⟩
    · rw [Heap.setPtr_ptr, update_of_ne apart]
    · rw [Heap.setPtr_size]
      split
      next here => rw [here, size]
      next => rfl
    · rw [Heap.setPtr_ptr]
      refine rest.replace (update_self ..) fun x member => update_of_ne ?_ ..
      have bound := distant x member
      unfold plus headerSize at bound
      omega

theorem joinLower_spec (opened : Opened g s l n r)
    (handed : given.Perm (useds g.top l ++ useds (plus (stop g.top l) n) r)) : ∃ l' N, n ≤ N ∧
    l'.length ≤ l.length ∧
    Tiled g { s.joinLower (stop g.top l) ((frees g.top l).getLastD g.base) with
      freep := (frees g.top l).getLastD g.base } given (l' ++ ⟨N, none⟩ :: r) := by
  have start := base_lt g
  have positive := opened.positive
  have low : ∀ t ∈ l, 0 < t.size := fun t member => positive t (List.mem_append_left _ member)
  have own : 0 < n := positive ⟨n, none⟩ (List.mem_append_right _ (List.mem_cons_self ..))
  have high : ∀ t ∈ r, 0 < t.size := fun t member =>
    positive t (List.mem_append_right _ (List.mem_cons_of_mem _ member))
  have headers := opened.headers
  rw [placed_append, placed] at headers
  have ended := opened.ended
  obtain ⟨c, below⟩ := opened.below
  obtain ⟨bp, hbp⟩ : ∃ bp, bp = stop g.top l := ⟨_, rfl⟩
  have reach : g.top ≤ bp := hbp ▸ Nat.le_add_right ..
  have above := opened.above
  rw [← hbp] at above headers ⊢
  have later : ∀ x ∈ bp :: frees (plus bp n) r, bp ≤ x := fun x member => by
    rcases List.mem_cons.mp member with rfl | inside
    · exact le_refl x
    · exact le_trans (Nat.le_add_right ..) (frees_bounds high inside).1
  by_cases joins : ∃ l' k, l = l' ++ [⟨k, none⟩]
  · -- the block below is free
    obtain ⟨l', k, rfl⟩ := joins
    obtain ⟨q, hq⟩ : ∃ q, q = stop g.top l' := ⟨_, rfl⟩
    have reach' : g.top ≤ q := hq ▸ Nat.le_add_right ..
    have place : bp = plus q k := by rw [hbp, stop_append, hq]; rfl
    have some : 0 < k := low ⟨k, none⟩ (by simp)
    have low' : ∀ t ∈ l', 0 < t.size := fun t member => low t (List.mem_append_left _ member)
    have list : frees g.top (l' ++ [⟨k, none⟩]) = frees g.top l' ++ [q] := by rw [frees_append, ← hq]; rfl
    have head : (s.mem q).size = k := headers (q, ⟨k, none⟩) (by simp [placed_append, placed, ← hq])
    have head' : (s.mem bp).size = n := headers (bp, ⟨n, none⟩) (by simp)
    have small : k + n < 2 ^ 32 := by
      have limit := opened.limit
      rw [stop_append, stop_cons, ← hbp] at ended
      have top : plus bp n ≤ stop (plus bp n) r := Nat.le_add_right ..
      unfold plus headerSize at *
      dsimp only at *
      omega
    have joined : s.joinLower bp q = (s.setSize q (k + n)).setPtr q (s.ptr bp) := by
      rw [Heap.joinLower, head, ← place, if_pos rfl, head']
      simp only [Heap.setSize_ptr]
    rw [list, Trail.append_iff] at below
    have last : (frees g.top (l' ++ [⟨k, none⟩])).getLastD g.base = q := by rw [list]; simp
    have lower : ∀ x ∈ g.base :: frees g.top l', x < q := fun x member => by
      rcases List.mem_cons.mp member with rfl | inside
      · omega
      · exact hq ▸ (frees_bounds low' inside).2
    have frees' : frees g.top (l' ++ ⟨k + n, none⟩ :: r) = frees g.top l' ++ q :: frees (plus bp n) r := by
      rw [frees_append, frees_free, ← hq, place, plus_plus]
    rw [last, joined]
    refine ⟨l', k + n, Nat.le_add_left n k,
      by simp, ?_, opened.limit, fun t member => ?_, ?_, ?_, ?_, ?_, ?_, ?_, ?_⟩
    · rw [stop_append, stop_cons, ← hq]
      rw [stop_append, stop_cons, ← hbp, place, plus_plus] at ended
      exact ended
    · rcases List.mem_append.mp member with first | second
      · exact low' t first
      · rcases List.mem_cons.mp second with rfl | third
        · exact lt_of_lt_of_le own (Nat.le_add_left n k)
        · exact high t third
    · obtain ⟨first, -, next⟩ := List.isChain_append.mp opened.lower
      obtain ⟨next', second⟩ := List.isChain_cons.mp opened.upper
      refine List.isChain_append.mpr ⟨first, List.isChain_cons.mpr ⟨next', second⟩,
        fun t member u member' => ?_⟩
      obtain rfl := Option.some.inj member'
      exact next t member ⟨k, none⟩ rfl
    · refine headers_change hq low' (fun p member => headers p ?_) (fun p member => headers p ?_)
        (Nat.add_pos_left some n) fun x => ?_
      · rw [placed_append]
        exact List.mem_append_left _ (List.mem_append_left _ member)
      · rw [place, plus_plus]
        exact List.mem_append_right _ (List.mem_cons_of_mem _ member)
      · show (((s.setSize q (k + n)).setPtr q (s.ptr bp)).mem x).size = _
        rw [Heap.setPtr_size, Heap.setSize_size, Nat.mod_eq_of_lt small]
    · show (((s.setSize q (k + n)).setPtr q (s.ptr bp)).mem g.base).size = 0
      have apart : g.base ≠ q := by omega
      rw [Heap.setPtr_size, Heap.setSize_size, if_neg apart, opened.first]
    · rw [frees', Trail.append_iff]
      show Trail ((s.setSize q (k + n)).setPtr q (s.ptr bp)).ptr g.base (frees g.top l') q ∧
        Trail ((s.setSize q (k + n)).setPtr q (s.ptr bp)).ptr q (frees (plus bp n) r) g.base
      rw [Heap.setPtr_ptr, Heap.setSize_ptr]
      refine ⟨below.1.congr fun x member => update_of_ne (lower x member).ne ..,
        above.replace (update_self ..)
        fun x member => update_of_ne ?_ ..⟩
      have bound := later x (List.mem_cons_of_mem _ member)
      unfold plus headerSize at place
      omega
    · rw [frees']
      exact List.mem_cons_of_mem _ (List.mem_append_right _ (List.mem_cons_self ..))
    · rw [useds_append, useds_free, ← hq, ← plus_plus, ← place]
      rw [useds_append, ← hbp] at handed
      exact (List.append_nil (useds g.top l') ▸ handed :)
    · exact fun t member owner asks => by
        rcases List.mem_append.mp member with first | second
        · exact opened.asked t (List.mem_append_left _ (List.mem_append_left _ first)) owner asks
        · rcases List.mem_cons.mp second with rfl | third
          · cases asks
          · exact opened.asked t (List.mem_append_right _ third) owner asks
  · have size : plus ((frees g.top l).getLastD g.base) (s.mem ((frees g.top l).getLastD g.base)).size ≠
      bp := by
      rcases List.mem_cons.mp (Trail.mem_last (a := g.base) (l := frees g.top l)) with same | inside
      · rw [same, opened.first]
        unfold plus
        omega
      obtain ⟨k, place⟩ := mem_frees.mp inside
      rw [headers _ (List.mem_append_left _ place)]
      obtain ⟨l₁, l₂, split, here⟩ := placed_split place
      have up : stop g.top l = stop (plus ((frees g.top l).getLastD g.base) k) l₂ :=
        (congrArg (stop g.top) split).trans (by rw [stop_append, stop_cons, ← here])
      intro same
      rw [hbp, up] at same
      rcases l₂ with _ | ⟨t, l₂⟩
      · exact joins ⟨l₁, k, split⟩
      · have some := low t (by simp [split])
        rw [stop_cons] at same
        unfold stop plus headerSize at same
        dsimp only at same
        omega
    have joined : s.joinLower bp ((frees g.top l).getLastD g.base) =
      s.setPtr ((frees g.top l).getLastD g.base) bp :=
      if_neg size
    rw [joined]
    have nodup : (g.base :: frees g.top l).Nodup := by
      refine List.Pairwise.imp (fun less => less.ne) (.cons (fun x member => ?_) (frees_sorted g.top low))
      exact lt_of_lt_of_le start (frees_bounds low member).1
    have last : (frees g.top l).getLastD g.base < bp := by
      rcases List.mem_cons.mp (Trail.mem_last (a := g.base) (l := frees g.top l)) with same | inside
      · omega
      · exact hbp ▸ (frees_bounds low inside).2
    have frees' : frees g.top (l ++ ⟨n, none⟩ :: r) = frees g.top l ++ bp :: frees (plus bp n) r := by
      rw [frees_append, frees_free, ← hbp]
    refine ⟨l, n, le_refl n, le_refl _, ended, opened.limit, positive, ?_, fun p member => ?_,
      ?_, ?_, ?_, ?_, ?_⟩
    · refine List.isChain_append.mpr ⟨opened.lower, opened.upper, fun t member u _ => .inl fun none => ?_⟩
      obtain ⟨l', rfl⟩ := List.getLast?_eq_some_iff.mp member
      exact joins ⟨l', t.size, by rw [← none]⟩
    · show ((s.setPtr _ bp).mem p.1).size = p.2.size
      rw [Heap.setPtr_size]
      exact opened.headers p member
    · show ((s.setPtr _ bp).mem g.base).size = 0
      rw [Heap.setPtr_size]
      exact opened.first
    · rw [frees', Trail.append_iff]
      show Trail (s.setPtr _ bp).ptr g.base (frees g.top l) bp ∧
        Trail (s.setPtr _ bp).ptr bp (frees (plus bp n) r) g.base
      rw [Heap.setPtr_ptr]
      exact ⟨below.redirect nodup, above.congr fun x member => update_of_ne
        (lt_of_lt_of_le last (later x member)).ne' ..⟩
    · rw [frees', ← List.cons_append]
      exact List.mem_append_left _ Trail.mem_last
    · rw [useds_append, useds_free]
      exact handed
    · exact fun t member owner asks => by
        rcases List.mem_append.mp member with first | second
        · exact opened.asked t (List.mem_append_left _ first) owner asks
        · rcases List.mem_cons.mp second with rfl | third
          · cases asks
          · exact opened.asked t (List.mem_append_right _ third) owner asks

/-- `free` ends, and the block it is given becomes part of a free one. -/
theorem free_spec {ap : Nat} (tiled : Tiled g s ((ap, m) :: given) (l ++ ⟨n, some m⟩ :: r))
    (place : ap = plus (stop g.top l) 1) : ∃ s' l' N r', s.free g ap = some s' ∧ n ≤ N ∧
      l'.length + r'.length ≤ l.length + r.length ∧ s'.brk = s.brk ∧
      Tiled g s' given (l' ++ ⟨N, none⟩ :: r') := by
  obtain ⟨N, r', more, fewer, same, opened⟩ := joinUpper_spec tiled
  have handed := tiled.handed
  rw [useds_append, useds_used, ← place] at handed
  have rest : given.Perm (useds g.top l ++ useds (plus (stop g.top l) n) r) :=
    (List.perm_cons _).mp (handed.trans List.perm_middle)
  rw [← same] at rest
  obtain ⟨l', M, more', fewer', tiled'⟩ := joinLower_spec opened rest
  have header : ap - headerSize = stop g.top l := by rw [place]; exact Nat.add_sub_cancel ..
  refine ⟨_, l', M, r', ?_, le_trans more more', by omega, ?_, tiled'⟩
  · rw [Heap.free, header, findPlace_eq tiled]
    rfl
  · exact (joinLower_brk ..).trans (joinUpper_brk ..)

end Free

end Xv6.Umalloc
