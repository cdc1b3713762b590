import Xv6.Lib.Threads

namespace Threads

/-! A machine whose threads also note what they do, in a record that none of its steps depends on, and
outlines that say more about such a machine than about the one without notes. -/

variable {T S C V W E Act : Type} {Resp : Act → Type} {α β : Type}

/-- A note has no answer. -/
abbrev NotedResp (Resp : Act → Type) : Act ⊕ E → Type
  | .inl a => Resp a
  | .inr _ => Unit

/-- The machine with a record of what is noted, newest first. -/
def Machine.noted (E : Type) (M : Machine T S C Act Resp) :
    Machine T (S × List E) C (Act ⊕ E) (NotedResp Resp)
  | t, c, .inl a, (s, log) => match M t c a s with
    | .ok answer s' => .ok answer (s', log)
    | .blocked => .blocked
    | .panic message => .panic message
  | _, _, .inr e, (s, log) => .ok () (s, e :: log)

/-- Code without notes. -/
def Prog.lift (E : Type) : Prog Act Resp α → Prog (Act ⊕ E) (NotedResp Resp) α
  | .ret value => .ret value
  | .act a next => .act (.inl a) fun answer => (next answer).lift E

/-- Note an event. -/
def Prog.note (e : E) : Prog (Act ⊕ E) (NotedResp Resp) Unit := .act (.inr e) .ret

namespace Prog

/-- All the steps of some code are of a kind. -/
def Each (kind : Act → Prop) : Prog Act Resp α → Prop
  | .ret _ => True
  | .act a next => kind a ∧ ∀ answer, (next answer).Each kind

variable {kind kind' : Act → Prop}

theorem each_pure {value : α} : (pure value : Prog Act Resp α).Each kind := trivial

theorem each_step {a : Act} (is : kind a) : (step a : Prog Act Resp (Resp a)).Each kind :=
  ⟨is, fun _ => trivial⟩

theorem each_bind {p : Prog Act Resp α} {f : α → Prog Act Resp β} (first : p.Each kind)
    (rest : ∀ value, (f value).Each kind) : (p >>= f).Each kind := by
  induction p with
  | ret value => exact rest value
  | act a next ih => exact ⟨first.1, fun answer => ih answer (first.2 answer)⟩

theorem each_mono {p : Prog Act Resp α} (imp : ∀ a, kind a → kind' a) (each : p.Each kind) : p.Each kind' := by
  induction p with
  | ret value => trivial
  | act a next ih => exact ⟨imp a each.1, fun answer => ih answer (each.2 answer)⟩

theorem each_forEach {body : β → Prog Act Resp Unit} (each : ∀ x, (body x).Each kind) (xs : List β) :
    (forEach body xs).Each kind := by
  induction xs with
  | nil => trivial
  | cons x rest ih => exact each_bind (each x) fun _ => ih

end Prog

/-- An outline of a machine, with a further invariant and a further part of what a thread relies on. -/
def Outline.noted (P : Outline T S V Act) (extra : S × List E → Prop) (own : T → S × List E → W) :
    Outline T (S × List E) (V × W) (Act ⊕ E) where
  inv x := P.inv x.1 ∧ extra x
  view t x := (P.view t x.1, own t x)
  guar t x y := ∀ other, other ≠ t → P.view other y.1 = P.view other x.1 ∧ own other y = own other x
  allowed t a x := match a with
    | .inl a => P.allowed t a x.1
    | .inr _ => True
  owes t a x := match a with
    | .inl a => P.owes t a x.1
    | .inr _ => True
  mayPanic t a x message := match a with
    | .inl a => P.mayPanic t a x.1 message
    | .inr _ => False

variable {M : Machine T S C Act Resp} {P : Outline T S V Act} {extra : S × List E → Prop}
  {own : T → S × List E → W}
  {t : T} {v : V} {w : W}

theorem Outline.noted_isolated : (P.noted extra own).Isolated := fun _ _ _ guar other different =>
  Prod.ext (guar other different).1 (guar other different).2

/-- A step that leaves alone what the outline says in addition. -/
def Keeps (M : Machine T S C Act Resp) (extra : S × List E → Prop) (own : T → S × List E → W) (t : T)
    (a : Act) : Prop :=
  ∀ s log c answer s', extra (s, log) → M t c a s = .ok answer s' →
    extra (s', log) ∧ ∀ other, own other (s', log) = own other (s, log)

/-- Code whose steps leave alone what the outline says in addition. -/
theorem wp_lift (isolated : P.Isolated) {p : Prog Act Resp α} {Q : α → V → Prop}
    (each : p.Each (Keeps M extra own t))
    (h : wp M P t p Q v) :
    wp (M.noted E) (P.noted extra own) t (p.lift E) (fun value x => Q value x.1 ∧ x.2 = w) (v, w) := by
  induction p generalizing v with
  | ret value => exact ⟨h, rfl⟩
  | act a next ih =>
    rintro ⟨s, log⟩ c ⟨inv, kept⟩ view
    obtain ⟨rfl, rfl⟩ := Prod.mk.inj view
    obtain ⟨owed, step⟩ := h s c inv rfl
    refine ⟨owed, fun ok => ?_⟩
    have after := step ok
    simp only [Machine.noted]
    cases eq : M t c a s with
    | blocked => trivial
    | panic message =>
      rw [eq] at after
      exact after
    | ok answer s' =>
      rw [eq] at after
      obtain ⟨inv', guar, rest⟩ := after
      obtain ⟨kept', same⟩ := each.1 s log c answer s' kept eq
      refine ⟨⟨inv', kept'⟩, fun other different => ⟨isolated t s s' guar other different, same other⟩, ?_⟩
      have later := ih answer (each.2 answer) rest
      show wp _ _ _ _ _ (P.view t s', own t (s', log))
      rw [same t]
      exact later

/-- A step of the machine without notes. -/
theorem wp_lift_step (isolated : P.Isolated) {a : Act} {Q : Resp a → V → Prop} {R : Resp a → W → Prop}
    (h : wp M P t (.step a) Q v)
    (more : ∀ s log c answer s', P.inv s → extra (s, log) → P.view t s = v → own t (s, log) = w →
      M t c a s = .ok answer s' → extra (s', log) ∧
      (∀ other, other ≠ t → own other (s', log) = own other (s, log)) ∧
        R answer (own t (s', log))) :
    wp (M.noted E) (P.noted extra own) t ((Prog.step a).lift E) (fun answer x => Q answer x.1 ∧
      R answer x.2) (v, w) := by
  rintro ⟨s, log⟩ c ⟨inv, kept⟩ view
  obtain ⟨here, mine⟩ := Prod.mk.inj view
  obtain ⟨owed, step⟩ := h s c inv here
  refine ⟨owed, fun ok => ?_⟩
  have after := step ok
  simp only [Machine.noted]
  cases eq : M t c a s with
  | blocked => trivial
  | panic message =>
    rw [eq] at after
    exact after
  | ok answer s' =>
    rw [eq] at after
    obtain ⟨inv', guar, rest⟩ := after
    obtain ⟨kept', same, own'⟩ := more s log c answer s' inv kept here mine eq
    exact ⟨⟨inv', kept'⟩, fun other different => ⟨isolated t s s' guar other different,
      same other different⟩, rest, own'⟩

theorem wp_note {e : E} {Q : Unit → V × W → Prop}
    (h : ∀ s log, P.inv s → extra (s, log) → P.view t s = v → own t (s, log) = w →
      extra (s, e :: log) ∧ (∀ other, other ≠ t → own other (s, e :: log) = own other (s, log)) ∧
        Q () (v, own t (s, e :: log))) :
    wp (M.noted E) (P.noted extra own) t (Prog.note e) Q (v, w) := by
  rintro ⟨s, log⟩ c ⟨inv, kept⟩ view
  obtain ⟨here, mine⟩ := Prod.mk.inj view
  obtain ⟨kept', same, post⟩ := h s log inv kept here mine
  refine ⟨trivial, fun _ => ⟨⟨inv, kept'⟩, fun other different => ⟨rfl, same other different⟩, ?_⟩⟩
  show Q () (P.view t s, own t (s, e :: log))
  rw [here]
  exact post

end Threads
