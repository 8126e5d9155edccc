import Mathlib.Data.List.Induction

/-!
# Runs of a labelled system

A system that a label takes from one state to the next runs through a list of labels.

* `Obeys` — every label of the run meets a condition in the state it is taken in.
* `Obeys.inv` — what a step that meets the condition keeps, a run that obeys it keeps.
* `exists_prefix` — what holds at the end of a run and not at its start, some step of it brings.
* `before` — one event comes before another one.
-/

namespace Infra

variable {σ l : Type} (step : σ → l → σ)

/-- Every label meets `C` in the state the labels before it lead to. -/
def Obeys (C : σ → l → Prop) : σ → List l → Prop
  | _, [] => True
  | s, a :: as => C s a ∧ Obeys C (step s a) as

variable {step} {C : σ → l → Prop}

theorem obeys_append {s : σ} {as bs : List l} :
    Obeys step C s (as ++ bs) ↔ Obeys step C s as ∧ Obeys step C (as.foldl step s) bs := by
  induction as generalizing s with
  | nil => simp [Obeys]
  | cons a as ih => simp [Obeys, ih, and_assoc]

/-- A condition on the labels alone. -/
theorem obeys_of_mem {P : l → Prop} {s : σ} {as : List l} (hP : ∀ a ∈ as, P a) :
    Obeys step (fun _ a => P a) s as := by
  induction as generalizing s with
  | nil => trivial
  | cons a as ih =>
    exact ⟨hP a (List.mem_cons_self ..), ih fun b hb => hP b (List.mem_cons_of_mem _ hb)⟩

/-- **An invariant of the steps that meet the condition is an invariant of the runs.** -/
theorem Obeys.inv {I : σ → Prop} (hI : ∀ s a, I s → C s a → I (step s a)) {s : σ}
    {as : List l} (h : Obeys step C s as) (hs : I s) : I (as.foldl step s) := by
  induction as generalizing s with
  | nil => exact hs
  | cons a as ih => exact ih h.2 (hI s a hs h.1)

theorem Obeys.of_prefix {s : σ} {as bs : List l} (h : Obeys step C s as) (hb : bs <+: as) :
    Obeys step C s bs := by
  obtain ⟨cs, rfl⟩ := hb
  exact (obeys_append.mp h).1

/-- A step brings what did not hold before the run; it is taken where `P` holds. -/
theorem exists_prefix {I P Q : σ → Prop} (hQ : ∀ s a, I s → Q (step s a) → Q s ∨ P s) {s : σ}
    (hs : ¬ Q s) {as : List l} (hI : ∀ bs, bs <+: as → I (bs.foldl step s))
    (h : Q (as.foldl step s)) : ∃ bs, bs <+: as ∧ P (bs.foldl step s) := by
  induction as using List.reverseRecOn with
  | nil => exact absurd h hs
  | append_singleton as a ih =>
    rw [List.foldl_append] at h
    rcases hQ _ a (hI as (List.prefix_append as [a])) h with h | h
    · obtain ⟨bs, hb, hP⟩ := ih (fun bs hb => hI bs (hb.trans (List.prefix_append as [a]))) h
      exact ⟨bs, hb.trans (List.prefix_append as [a]), hP⟩
    · exact ⟨as, List.prefix_append as [a], h⟩

/-! ## The order of events -/

/-- Something that is `P` comes before something that is `Q`. -/
def before (P Q : l → Bool) : List l → Bool
  | [] => false
  | a :: as => (P a && as.any Q) || before P Q as

variable {P Q : l → Bool}

theorem before_append (as bs : List l) : before P Q (as ++ bs) =
    (before P Q as || before P Q bs || (as.any P && bs.any Q)) := by
  induction as with
  | nil => simp [before]
  | cons a as ih =>
    simp only [List.cons_append, before, ih, List.any_append, List.any_cons]
    cases P a <;> cases as.any Q <;> cases bs.any Q <;> cases before P Q as <;>
      cases before P Q bs <;> cases as.any P <;> rfl

theorem before_eq_false_of_left {as : List l} (h : as.any P = false) : before P Q as = false := by
  induction as with
  | nil => rfl
  | cons a as ih =>
    rw [List.any_cons, Bool.or_eq_false_iff] at h
    rw [before, h.1, ih h.2]
    rfl

end Infra
