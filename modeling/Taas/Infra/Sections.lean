import Taas.Infra.Pool

/-!
# Sections

A section is a program that its client enters, at some place, with the first command and
leaves with the last one. A client that dies inside stays there.

* `Prog.fence` — a program as a section. It only keeps the book of who is where.
* `Sections.apart` — the interleavings in which nobody enters a place where somebody is.
* `Sections.apartWith` — the same, where a death may clean up.
* `Sections.triple_fence` — a section from what its program does inside.
-/

namespace Infra

variable {σ ε κ ι α β : Type}

/-- A store, and for each place who is inside the section there. -/
structure Sections (σ κ ι : Type) where
  store : σ
  inside : κ → Option ι := fun _ => none

namespace Sections

def put (s : σ) (t : Sections σ κ ι) : Sections σ κ ι := { t with store := s }

@[simp] theorem inside_put (s : σ) (t : Sections σ κ ι) : (t.put s).inside = t.inside := rfl

variable [DecidableEq κ]

def enter (i : ι) (k : κ) (t : Sections σ κ ι) : Sections σ κ ι :=
  { t with inside := Function.update t.inside k (some i) }

def leave (k : κ) (t : Sections σ κ ι) : Sections σ κ ι :=
  { t with inside := Function.update t.inside k none }

@[simp] theorem inside_enter (i : ι) (k : κ) (t : Sections σ κ ι) :
    (t.enter i k).inside = Function.update t.inside k (some i) := rfl

@[simp] theorem inside_leave (k : κ) (t : Sections σ κ ι) :
    (t.leave k).inside = Function.update t.inside k none := rfl

/-- Nobody enters a place where somebody is. -/
def apart : Regime (Sections σ κ ι) (ε ⊕ κ) ι where
  allowed t events := ∀ k, .inr k ∈ events → t.inside k = none
  clean _ t := t

/-- The same, where a client that dies leaves the store as `clean` does. -/
def apartWith (clean : ι → Sections σ κ ι → Sections σ κ ι) :
    Regime (Sections σ κ ι) (ε ⊕ κ) ι where
  allowed t events := ∀ k, .inr k ∈ events → t.inside k = none
  clean := clean

/-- Client `i` is inside nowhere. -/
def evict [DecidableEq ι] (i : ι) (t : Sections σ κ ι) : Sections σ κ ι :=
  { t with inside := fun k => (t.inside k).filter fun j => j ≠ i }

omit [DecidableEq κ] in
theorem inside_evict [DecidableEq ι] {i j : ι} {t : Sections σ κ ι} {k : κ} :
    (t.evict i).inside k = some j ↔ t.inside k = some j ∧ j ≠ i := by
  simp [evict, Option.filter_eq_some_iff]

/-- Whether `apart` allows it. -/
def free (t : Sections σ κ ι) (events : List (ε ⊕ κ)) : Bool :=
  events.all fun event => event.elim (fun _ => true) fun k => (t.inside k).isNone

omit [DecidableEq κ] in
theorem apart_of_free (t : Sections σ κ ι) (events : List (ε ⊕ κ)) (h : t.free events = true) :
    (apart : Regime (Sections σ κ ι) (ε ⊕ κ) ι).allowed t events :=
  fun k hk => Option.isNone_iff_eq_none.mp (List.all_eq_true.mp h (.inr k) hk)

end Sections

namespace Prog

/-- A program on the store, outside of all sections. -/
def outside (p : Prog σ ε α) : Prog (Sections σ κ ι) (ε ⊕ κ) α :=
  zoom Sections.store Sections.put Sum.inl p

theorem outside_bind (p : Prog σ ε α) (f : α → Prog σ ε β) :
    (outside (p >>= f) : Prog (Sections σ κ ι) (ε ⊕ κ) β) =
      outside p >>= fun a => outside (f a) := zoom_bind p f

variable [DecidableEq κ]

/-- The place is left when nothing of the section is to come. -/
def leaving (k : κ) : Prog σ ε α → Sections σ κ ι → Sections σ κ ι
  | .ret _, t => t.leave k
  | .cmd .., t => t

/-- A section that was entered. -/
def fenced (k : κ) : Prog σ ε α → Prog (Sections σ κ ι) (ε ⊕ κ) α
  | .ret a => .ret a
  | .cmd ready effect log next =>
    .cmd (fun t => ready t.store) (fun t => leaving k (next t.store) (t.put (effect t.store)))
      (fun t => (log t.store).map Sum.inl) fun t => fenced k (next t.store)

/-- The program as a section of client `i` at `k`. -/
def fence (i : ι) (k : κ) : Prog σ ε α → Prog (Sections σ κ ι) (ε ⊕ κ) α
  | .ret a => .ret a
  | .cmd ready effect log next =>
    .cmd (fun t => ready t.store)
      (fun t => leaving k (next t.store) ((t.enter i k).put (effect t.store)))
      (fun t => .inr k :: (log t.store).map Sum.inl) fun t => fenced k (next t.store)

end Prog

/-! ## What a section does -/

namespace Sections

open Prog Contract

variable [DecidableEq κ] {clean : ι → Sections σ κ ι → Sections σ κ ι}
  {K : Contract (Sections σ κ ι) (ε ⊕ κ) ι} {i : ι} {k : κ}
  {A : Assertion (Sections σ κ ι) (ε ⊕ κ)} {P Q : α → Assertion (Sections σ κ ι) (ε ⊕ κ)}

/-- What the program comes to is still so when the place was left. -/
def Leaves (K : Contract (Sections σ κ ι) (ε ⊕ κ) ι) (i : ι) (k : κ)
    (P Q : α → Assertion (Sections σ κ ι) (ε ⊕ κ)) : Prop :=
  ∀ a t es, K.inv t es → P a t es →
    K.inv (t.leave k) es ∧ K.guar i t es (t.leave k) es ∧ Q a (t.leave k) es

omit [DecidableEq κ] in
theorem allowed_inl {t : Sections σ κ ι} {events : List ε} :
    (apartWith clean : Regime (Sections σ κ ι) (ε ⊕ κ) ι).allowed t (events.map .inl) := by
  intro k hk
  simp at hk

/-- One command of a section, which may be its last. -/
theorem step_fenced
    (htrans : ∀ s es s' es' s'' es'', K.guar i s es s' es' → K.guar i s' es' s'' es'' →
      K.guar i s es s'' es'') (hQ : ∀ a, K.Stable i (Q a)) (hleave : Leaves K i k P Q)
    {p : Prog σ ε α} {t t' : Sections σ κ ι} {es es' : List (ε ⊕ κ)}
    {B : Assertion (Sections σ κ ι) (ε ⊕ κ)}
    (hp : (∀ a, p ≠ .ret a) → Triple (apartWith clean) K i (fenced k p) B Q)
    (hinv : K.inv t' es') (hg : K.guar i t es t' es') (hB : B t' es') (hst : K.Stable i B)
    (ht : Triple (apartWith clean) K i (outside p) B P) :
    K.inv (leaving k p t') es' ∧ K.guar i t es (leaving k p t') es' ∧
      ∃ B', B' (leaving k p t') es' ∧ K.Stable i B' ∧
        Triple (apartWith clean) K i (fenced k p) B' Q := by
  cases p with
  | ret a =>
    obtain ⟨hinv', hg', hq⟩ := hleave a t' es' hinv (ht t' es' hinv hB)
    exact ⟨hinv', htrans _ _ _ _ _ _ hg hg', Q a, hq, hQ a, fun _ _ _ h => h⟩
  | cmd ready effect log next => exact ⟨hinv, hg, B, hB, hst, hp fun _ h => by cases h⟩

/-- A section that was entered does what its program does, and leaves. -/
theorem triple_fenced
    (htrans : ∀ s es s' es' s'' es'', K.guar i s es s' es' → K.guar i s' es' s'' es'' →
      K.guar i s es s'' es'') (hQ : ∀ a, K.Stable i (Q a)) (hleave : Leaves K i k P Q)
    {p : Prog σ ε α} (hp : ∀ a, p ≠ .ret a)
    (h : Triple (apartWith clean) K i (outside p) A P) :
    Triple (apartWith clean) K i (fenced k p) A Q := by
  induction p generalizing A with
  | ret a => exact absurd rfl (hp a)
  | cmd ready effect log next ih =>
    intro t es hi ha hr hallowed
    obtain ⟨hinv, hg, B, hB, hst, hn⟩ := h t es hi ha hr allowed_inl
    exact step_fenced htrans hQ hleave (fun hne => ih t.store hne hn) hinv hg hB hst hn

/-- **A section is entered where nobody is, does what its program does, and leaves.** -/
theorem triple_fence
    (htrans : ∀ s es s' es' s'' es'', K.guar i s es s' es' → K.guar i s' es' s'' es'' →
      K.guar i s es s'' es'') (hQ : ∀ a, K.Stable i (Q a)) (hleave : Leaves K i k P Q)
    {A' : Assertion (Sections σ κ ι) (ε ⊕ κ)}
    (henter : ∀ t es, K.inv t es → A' t es → t.inside k = none →
      K.inv (t.enter i k) (es ++ [.inr k]) ∧ K.guar i t es (t.enter i k) (es ++ [.inr k]) ∧
        A (t.enter i k) (es ++ [.inr k]))
    {p : Prog σ ε α} (hp : ∀ a, p ≠ .ret a)
    (h : Triple (apartWith clean) K i (outside p) A P) :
    Triple (apartWith clean) K i (fence i k p) A' Q := by
  cases p with
  | ret a => exact absurd rfl (hp a)
  | cmd ready effect log next =>
    intro t es hi ha hr hallowed
    obtain ⟨henv, hgenter, hA⟩ := henter t es hi ha (hallowed k (List.mem_cons_self ..))
    obtain ⟨hinv, hg, B, hB, hst, hn⟩ := h _ _ henv hA hr allowed_inl
    rw [List.append_assoc, List.singleton_append] at hinv hg hB
    exact step_fenced htrans hQ hleave
      (fun hne => triple_fenced htrans hQ hleave hne hn) hinv (htrans _ _ _ _ _ _ hgenter hg) hB
      hst hn

end Sections

end Infra
