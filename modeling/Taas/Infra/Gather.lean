import Mathlib.Algebra.BigOperators.Group.List.Basic
import Mathlib.Algebra.GroupWithZero.Nat
import Mathlib.Data.List.Forall2
import Taas.Infra.Pool

/-!
# Programs side by side, and credits

A client may run several programs at once: their commands alternate in some order, and it goes
on when all have come to their ends. A client may have credits, which some of its commands
spend.

* `Prog.gather` — programs side by side, in the order of a schedule.
* `Prog.Spends n` — at most `n` commands spend a credit, whatever happens in between.
* `Spends.gather` — programs side by side spend what each of them does.
* `Contract.triple_of_spends` — who has the credits may spend them.
-/

namespace Infra

variable {σ ε ι α β : Type}

namespace Prog

/-- One program after another. -/
def sequence : List (Prog σ ε Unit) → Prog σ ε Unit
  | [] => .ret ()
  | p :: ps => p.bind fun _ => sequence ps

/-- The programs side by side: `schedule` says whose turn it is, and those that have not ended
after it end one after another. -/
def gather (ps : List (Prog σ ε Unit)) : List Nat → Prog σ ε Unit
  | [] => sequence ps
  | k :: schedule =>
    match ps[k]? with
    | some (.cmd ready effect log next) =>
      .cmd ready effect log fun s => gather (ps.set k (next s)) schedule
    | _ => gather ps schedule

variable {C : (σ → σ) → (σ → List ε) → Prop}

theorem Each.sequence {ps : List (Prog σ ε Unit)} (h : ∀ p ∈ ps, Each C p) :
    Each C (sequence ps) := by
  induction ps with
  | nil => trivial
  | cons p ps ih =>
    exact Each.bind (h p List.mem_cons_self) fun _ => ih fun q hq => h q (List.mem_cons_of_mem _ hq)

/-- What all commands of the programs have in common, those side by side have. -/
theorem Each.gather {ps : List (Prog σ ε Unit)} (h : ∀ p ∈ ps, Each C p) (schedule : List Nat) :
    Each C (gather ps schedule) := by
  induction schedule generalizing ps with
  | nil => exact Each.sequence h
  | cons k schedule ih =>
    unfold Prog.gather
    split
    · next ready effect log next hk =>
      have hp := h _ (List.mem_of_getElem? hk)
      refine ⟨hp.1, fun s => ih fun q hq => ?_⟩
      rcases List.mem_or_eq_of_mem_set hq with hq | rfl
      · exact h q hq
      · exact hp.2 s
    · exact ih h

/-! ## Credits -/

/-- At most `n` commands are spending ones; the others keep the credits. -/
def Spends (keeps spends : (σ → σ) → Prop) : Prog σ ε α → Nat → Prop
  | .ret _, _ => True
  | .cmd _ effect _ next, n =>
    (keeps effect ∧ ∀ s, Spends keeps spends (next s) n) ∨
      ∃ m, n = m + 1 ∧ spends effect ∧ ∀ s, Spends keeps spends (next s) m

variable {keeps spends : (σ → σ) → Prop} {m n : Nat}

theorem Spends.mono {p : Prog σ ε α} (h : p.Spends keeps spends m) (hmn : m ≤ n) :
    p.Spends keeps spends n := by
  induction p generalizing m n with
  | ret a => trivial
  | cmd ready effect log next ih =>
    rcases h with ⟨hkeep, h⟩ | ⟨k, rfl, hspend, h⟩
    · exact Or.inl ⟨hkeep, fun s => ih s (h s) hmn⟩
    · obtain ⟨j, rfl⟩ : ∃ j, n = j + 1 := ⟨n - 1, by omega⟩
      exact Or.inr ⟨j, rfl, hspend, fun s => ih s (h s) (by omega)⟩

/-- A program whose commands all keep the credits spends none. -/
theorem spends_of_each {p : Prog σ ε α} (h : Each (fun effect _ => keeps effect) p) (n : Nat) :
    p.Spends keeps spends n := by
  induction p with
  | ret a => trivial
  | cmd ready effect log next ih => exact Or.inl ⟨h.1, fun s => ih s (h.2 s)⟩

theorem Spends.bind {p : Prog σ ε α} {f : α → Prog σ ε β} (hp : p.Spends keeps spends m)
    (hf : ∀ a, (f a).Spends keeps spends n) : (p >>= f).Spends keeps spends (m + n) := by
  change (p.bind f).Spends keeps spends (m + n)
  induction p generalizing m with
  | ret a => exact (hf a).mono (by omega)
  | cmd ready effect log next ih =>
    rcases hp with ⟨hkeep, h⟩ | ⟨k, rfl, hspend, h⟩
    · exact Or.inl ⟨hkeep, fun s => ih s (h s)⟩
    · exact Or.inr ⟨k + n, by omega, hspend, fun s => ih s (h s)⟩

theorem Spends.first {p : Prog σ ε Unit} (h : p.Spends keeps spends n) (k : Nat) :
    (first k p).Spends keeps spends n := by
  induction p generalizing k n with
  | ret a => cases k <;> trivial
  | cmd ready effect log next ih =>
    cases k with
    | zero => trivial
    | succ k =>
      rcases h with ⟨hkeep, h⟩ | ⟨m, rfl, hspend, h⟩
      · exact Or.inl ⟨hkeep, fun s => ih s (h s) k⟩
      · exact Or.inr ⟨m, rfl, hspend, fun s => ih s (h s) k⟩

theorem Spends.upTo {p : Prog σ ε Unit} (h : p.Spends keeps spends n) (raises : Option Nat) :
    (upTo raises p).Spends keeps spends n := by
  cases raises with
  | none => exact h
  | some k => exact h.first k

theorem Spends.zoom {τ δ : Type} {get : τ → σ} {set : σ → τ → τ} {note : ε → δ}
    {keeps' spends' : (τ → τ) → Prop}
    (hkeep : ∀ effect, keeps effect → keeps' fun t => set (effect (get t)) t)
    (hspend : ∀ effect, spends effect → spends' fun t => set (effect (get t)) t)
    {p : Prog σ ε α} (h : p.Spends keeps spends n) :
    (zoom get set note p).Spends keeps' spends' n := by
  induction p generalizing n with
  | ret a => trivial
  | cmd ready effect log next ih =>
    rcases h with ⟨hk, h⟩ | ⟨m, rfl, hs, h⟩
    · exact Or.inl ⟨hkeep effect hk, fun t => ih _ (h _)⟩
    · exact Or.inr ⟨m, rfl, hspend effect hs, fun t => ih _ (h _)⟩

theorem Spends.sequence {ps : List (Prog σ ε Unit)} {ns : List Nat}
    (h : List.Forall₂ (fun p n => Spends keeps spends p n) ps ns) :
    (sequence ps).Spends keeps spends ns.sum := by
  induction h with
  | nil => trivial
  | cons hp _ ih =>
    rw [List.sum_cons]
    exact Spends.bind hp fun _ => ih

theorem forall₂_set {R : α → β → Prop} {as : List α} {bs : List β} (h : List.Forall₂ R as bs)
    {k : Nat} {a : α} {b : β} (hab : R a b) : List.Forall₂ R (as.set k a) (bs.set k b) := by
  induction h generalizing k with
  | nil => exact .nil
  | cons hhead htail ih =>
    cases k with
    | zero => exact .cons hab htail
    | succ k => exact .cons hhead ih

/-- Programs side by side spend what each of them does. -/
theorem Spends.gatherSum {ps : List (Prog σ ε Unit)} {ns : List Nat}
    (h : List.Forall₂ (fun p n => Spends keeps spends p n) ps ns) (schedule : List Nat) :
    (gather ps schedule).Spends keeps spends ns.sum := by
  induction schedule generalizing ps ns with
  | nil => exact Spends.sequence h
  | cons k schedule ih =>
    unfold Prog.gather
    split
    · next ready effect log next hk =>
      obtain ⟨hlength, hall⟩ := List.forall₂_iff_get.mp h
      obtain ⟨hlt, hget⟩ := List.getElem?_eq_some_iff.mp hk
      have hp := hall k hlt (hlength ▸ hlt)
      rw [List.get_eq_getElem, hget] at hp
      rcases hp with ⟨hkeep, hnext⟩ | ⟨left, hleft, hspend, hnext⟩
      · refine Or.inl ⟨hkeep, fun s => ?_⟩
        have hset := ih (forall₂_set h (hnext s) (k := k))
        simpa using hset
      · -- the spending command leaves one credit less to its program
        refine Or.inr ⟨(ns.set k left).sum, ?_, hspend, fun s => ih (forall₂_set h (hnext s))⟩
        have hlt' : k < ns.length := hlength ▸ hlt
        have hsum := List.sum_set ns k left
        have hsplit := List.sum_take_add_sum_drop ns k
        rw [List.drop_eq_getElem_cons hlt', List.sum_cons] at hsplit
        rw [if_pos hlt'] at hsum
        have hleft : ns[k] = left + 1 := hleft
        omega
    · exact ih h

theorem Spends.gather {ps : List (Prog σ ε Unit)} (h : ∀ p ∈ ps, p.Spends keeps spends 1)
    (schedule : List Nat) : (gather ps schedule).Spends keeps spends ps.length := by
  have hall : List.Forall₂ (fun p n => Spends keeps spends p n) ps (ps.map fun _ => 1) := by
    rw [List.forall₂_map_right_iff]
    exact List.forall₂_same.mpr h
  simpa using Spends.gatherSum hall schedule

end Prog

namespace Contract

open Prog

variable {R : Regime σ ε ι} {K : Contract σ ε ι} {i : ι} {keeps spends : (σ → σ) → Prop}

/-- Commands that keep credits, and commands that spend one, of a client that has `n` credits
where `A n` holds. -/
structure Credits (R : Regime σ ε ι) (K : Contract σ ε ι) (i : ι)
    (keeps spends : (σ → σ) → Prop) (A : Nat → Assertion σ ε) : Prop where
  stable : ∀ n, K.Stable i (A n)
  less : ∀ n s es, A (n + 1) s es → A n s es
  keep : ∀ effect n s es es', keeps effect → K.inv s es → A n s es →
    K.inv (effect s) (es ++ es') ∧ K.guar i s es (effect s) (es ++ es') ∧
      A n (effect s) (es ++ es')
  spend : ∀ effect n s es es', spends effect → K.inv s es → A (n + 1) s es →
    K.inv (effect s) (es ++ es') ∧ K.guar i s es (effect s) (es ++ es') ∧
      A n (effect s) (es ++ es')

/-- **Who has the credits may spend them.** -/
theorem triple_of_spends {A : Nat → Assertion σ ε} (hA : Credits R K i keeps spends A)
    {p : Prog σ ε α} {m : Nat} (hp : p.Spends keeps spends m) (k : Nat) :
    Triple R K i p (A (m + k)) fun _ => A k := by
  induction p generalizing m with
  | ret a =>
    intro s es _ h
    clear hp
    induction m with
    | zero => simpa using h
    | succ m ih => exact ih (hA.less _ s es (by rwa [Nat.succ_add] at h))
  | cmd ready effect log next ih =>
    intro s es hi h _ _
    rcases hp with ⟨hkeep, hnext⟩ | ⟨left, rfl, hspend, hnext⟩
    · obtain ⟨hinv, hg, hleft⟩ := hA.keep effect _ s es (log s) hkeep hi h
      exact ⟨hinv, hg, _, hleft, hA.stable _, ih s (hnext s)⟩
    · rw [Nat.succ_add] at h
      obtain ⟨hinv, hg, hleft⟩ := hA.spend effect _ s es (log s) hspend hi h
      exact ⟨hinv, hg, _, hleft, hA.stable _, ih s (hnext s)⟩

end Contract

end Infra
