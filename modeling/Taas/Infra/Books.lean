import Mathlib.Algebra.BigOperators.Group.Finset.Basic
import Mathlib.Algebra.BigOperators.Group.Finset.Piecewise
import Taas.Infra.Silent

/-!
# Books

A store may keep counters of what else it holds. A client that moves something and its counters
with several commands leaves a gap in between, for which it owes the moves that are to come.

* `Account` — how far the counters of a store are off.
* `Prog.Books` — what a program owes at its start and at its end, whatever the others do.
* `Pool.Closing` — the gap and what the clients owe have a fixed sum.
* `Pool.Closing.gap_of_ended` — it is the gap when all clients have come to their ends.
-/

namespace Infra

variable {σ ε ι α β M : Type} [AddCommGroup M]

/-- The gap between the counters and what they count, in the stores that `inv` holds of; a command
that logs some events is only executed in the stores that allow them. -/
structure Account (σ ε M : Type) where
  inv : σ → Prop
  allowed : σ → List ε → Prop
  gap : σ → M

namespace Prog

variable {A : Account σ ε M} {d : M}

/-- A program that owes `d`: each command keeps the sum of the gap and what is owed, and `Q` holds
of the answer and what is owed then. -/
def Books (A : Account σ ε M) : Prog σ ε α → M → (α → M → Prop) → Prop
  | .ret a, d, Q => Q a d
  | .cmd _ effect log next, d, Q => ∀ s, A.inv s → A.allowed s (log s) →
    A.inv (effect s) ∧ ∃ d', A.gap (effect s) + d' = A.gap s + d ∧ Books A (next s) d' Q

theorem books_pure {a : α} {Q : α → M → Prop} (h : Q a d) :
    (pure a : Prog σ ε α).Books A d Q := h

theorem Books.bind {p : Prog σ ε α} {f : α → Prog σ ε β} {P : α → M → Prop} {Q : β → M → Prop}
    (hp : p.Books A d P) (hf : ∀ a d, P a d → (f a).Books A d Q) : (p >>= f).Books A d Q := by
  change (p.bind f).Books A d Q
  induction p generalizing d with
  | ret a => exact hf a d hp
  | cmd ready effect log next ih =>
    intro s hs ha
    obtain ⟨hinv, d', hgap, hnext⟩ := hp s hs ha
    exact ⟨hinv, d', hgap, ih s hnext⟩

/-- What the first part owes at its end depends on its answer only. -/
theorem Books.seq {p : Prog σ ε α} {f : α → Prog σ ε β} {e : α → M} {Q : β → M → Prop}
    (hp : p.Books A d fun a d' => d' = e a) (hf : ∀ a, (f a).Books A (e a) Q) :
    (p >>= f).Books A d Q := by
  refine hp.bind fun a d' hd => ?_
  rw [hd]
  exact hf a

/-- What is made of the answer is nobody's debt. -/
theorem Books.map {p : Prog σ ε α} {f : α → β} {P : α → M → Prop} {Q : β → M → Prop}
    (hp : p.Books A d P) (hQ : ∀ a d, P a d → Q (f a) d) : (f <$> p).Books A d Q :=
  hp.bind hQ

theorem books_callLog {log : σ → List ε} {reply : σ → β} {effect : σ → σ} {Q : β → M → Prop}
    (h : ∀ s, A.inv s → A.allowed s (log s) →
      A.inv (effect s) ∧ ∃ d', A.gap (effect s) + d' = A.gap s + d ∧ Q (reply s) d') :
    (callLog log reply effect).Books A d Q := h

/-- A program whose commands neither open nor close the gap. -/
theorem books_of_each {C : (σ → σ) → (σ → List ε) → Prop}
    (hC : ∀ effect log, C effect log → ∀ s, A.inv s →
      A.inv (effect s) ∧ A.gap (effect s) = A.gap s)
    {p : Prog σ ε α} (hp : p.Each C) (d : M) : p.Books A d fun _ d' => d' = d := by
  induction p with
  | ret a => exact rfl
  | cmd ready effect log next ih =>
    intro s hs ha
    obtain ⟨hinv, hgap⟩ := hC effect log hp.1 s hs
    exact ⟨hinv, d, by rw [hgap], ih s (hp.2 s)⟩

end Prog

namespace Pool

variable [DecidableEq ι] [Fintype ι] {A : Account σ ε M} {c : M} {p q : Pool σ ε ι}

/-- The next command of client `i` may be executed. -/
def Permits (A : Account σ ε M) (p : Pool σ ε ι) (i : ι) : Prop := A.allowed p.shared (p.nextLog i)

/-- The gap and what the clients owe come to `c`, and each of them will have paid when it ends. -/
def Closing (A : Account σ ε M) (c : M) (p : Pool σ ε ι) : Prop :=
  A.inv p.shared ∧ ∃ d : ι → M, A.gap p.shared + ∑ i, d i = c ∧
    ∀ i, ∃ prog, p.procs i = some prog ∧ prog.Books A (d i) fun _ d => d = 0

omit [DecidableEq ι] in
theorem closing_start (hinv : A.inv p.shared)
    (hp : ∀ i, ∃ prog, p.procs i = some prog ∧ prog.Books A 0 fun _ d => d = 0) :
    p.Closing A (A.gap p.shared) :=
  ⟨hinv, fun _ => 0, by rw [Finset.sum_const_zero, add_zero], hp⟩

theorem Closing.exec (h : p.Closing A c) {i : ι} (hq : p.exec i = some q) (ha : p.Permits A i) :
    q.Closing A c := by
  obtain ⟨ready, effect, log, next, hp, -, rfl⟩ := exec_eq_some hq
  obtain ⟨hinv, d, hsum, hbooks⟩ := h
  obtain ⟨prog, hprog, hown⟩ := hbooks i
  obtain rfl := Option.some.inj (hp.symm.trans hprog)
  rw [Permits, nextLog, hp] at ha
  obtain ⟨hinv', d', hgap, hnext⟩ := hown p.shared hinv ha
  refine ⟨hinv', Function.update d i d', ?_, fun j => ?_⟩
  · -- the client's share takes up what its command did to the gap
    have hrest := Finset.add_sum_erase Finset.univ d (Finset.mem_univ i)
    rw [Finset.sum_update_of_mem (Finset.mem_univ i), Finset.sdiff_singleton_eq_erase, ← add_assoc,
      hgap, add_assoc, hrest]
    exact hsum
  · by_cases hj : j = i
    · subst hj
      exact ⟨next p.shared, Function.update_self .., by rwa [Function.update_self]⟩
    · obtain ⟨prog', hprog', hbooks'⟩ := hbooks j
      exact ⟨prog', (Function.update_of_ne hj ..).trans hprog',
        by rwa [Function.update_of_ne hj]⟩

theorem Closing.schedule {is : List ι} : ∀ {p q : Pool σ ε ι}, p.Closing A c →
    p.schedule is = some q → Obeys advance (Permits A) p is → q.Closing A c := by
  induction is with
  | nil =>
    intro p q h hq _
    exact Option.some.inj hq ▸ h
  | cons i is ih =>
    intro p q h hq hobeys
    obtain ⟨p₁, hp₁, hq⟩ := schedule_cons.mp hq
    have hrest := hobeys.2
    rw [advance_of_exec hp₁] at hrest
    exact ih (h.exec hp₁ hobeys.1) hq hrest

omit [DecidableEq ι] in
/-- **When all clients have come to their ends, nothing is owed.** -/
theorem Closing.gap_of_ended (h : p.Closing A c) (hend : ∀ i, p.ended i = true) :
    A.gap p.shared = c := by
  obtain ⟨-, d, hsum, hbooks⟩ := h
  have hpaid : ∀ i, d i = 0 := by
    intro i
    obtain ⟨prog, hprog, hown⟩ := hbooks i
    obtain rfl := Option.some.inj ((procs_of_ended (hend i)).symm.trans hprog)
    exact hown
  rw [← hsum, Finset.sum_eq_zero fun i _ => hpaid i, add_zero]

end Pool

end Infra
