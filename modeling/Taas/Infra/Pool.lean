import Mathlib.Logic.Relation
import Taas.Infra.Program

/-!
# Interleaved programs

Any number of clients share one store. At each step one of them executes its next
command, or dies and leaves the store as `clean` does.

* `Pool.Run` — what any interleaving can reach. Its steps can be restricted to those a
  condition on the store and the logged events allows.
* `Pool.Run.each` — an invariant that every command keeps whenever it is executed.
* `Contract.Triple` — pre- and postconditions of one client, in a store that the others
  change only as they promise (`guar`).
* `Pool.Sound.run` — clients that keep their promises keep the invariant, together.
-/

namespace Infra

variable {σ ε ι α β : Type}

/-- The store, the clients (`none` for one that died) and what was logged so far. -/
structure Pool (σ ε ι : Type) where
  shared : σ
  procs : ι → Option (Prog σ ε Unit)
  history : List ε

/-- What a step may do: `allowed` looks at the store before the step and at the events
the step logs; `clean` is the store after a client died. -/
structure Regime (σ ε ι : Type) where
  allowed : σ → List ε → Prop
  clean : ι → σ → σ

/-- Any step; a client that dies leaves the store as it is. -/
def Regime.free : Regime σ ε ι where
  allowed _ _ := True
  clean _ s := s

namespace Pool

variable [DecidableEq ι]

/-- One step of one client. -/
inductive Step (R : Regime σ ε ι) : Pool σ ε ι → Pool σ ε ι → Prop
  | exec {p : Pool σ ε ι} {i : ι} {ready : σ → Bool} {effect : σ → σ} {log : σ → List ε}
      {next : σ → Prog σ ε Unit} (hp : p.procs i = some (.cmd ready effect log next))
      (hr : ready p.shared = true) (ha : R.allowed p.shared (log p.shared)) :
      Step R p
        { shared := effect p.shared
          procs := Function.update p.procs i (some (next p.shared))
          history := p.history ++ log p.shared }
  | crash {p : Pool σ ε ι} {i : ι} (hp : (p.procs i).isSome) :
      Step R p { p with shared := R.clean i p.shared, procs := Function.update p.procs i none }

/-- Any number of steps. -/
abbrev Run (R : Regime σ ε ι) : Pool σ ε ι → Pool σ ε ι → Prop :=
  Relation.ReflTransGen (Step R)

/-- The next command of client `i`, when it has one and need not wait. -/
def exec (p : Pool σ ε ι) (i : ι) : Option (Pool σ ε ι) :=
  match p.procs i with
  | some (.cmd ready effect log next) =>
    if ready p.shared then
      some
        { shared := effect p.shared
          procs := Function.update p.procs i (some (next p.shared))
          history := p.history ++ log p.shared }
    else none
  | _ => none

/-- The interleaving that schedules the clients in the order given. -/
def schedule (p : Pool σ ε ι) : List ι → Option (Pool σ ε ι)
  | [] => some p
  | i :: is => (p.exec i).bind fun q => q.schedule is

theorem exec_eq_some {p q : Pool σ ε ι} {i : ι} (h : p.exec i = some q) :
    ∃ ready effect log next, p.procs i = some (.cmd ready effect log next) ∧
      ready p.shared = true ∧ q =
        { shared := effect p.shared
          procs := Function.update p.procs i (some (next p.shared))
          history := p.history ++ log p.shared } := by
  unfold exec at h
  split at h
  · next ready effect log next hp =>
    split at h
    · next hr => exact ⟨ready, effect, log, next, hp, hr, (Option.some.inj h).symm⟩
    · cases h
  · cases h

theorem schedule_cons {p q : Pool σ ε ι} {i : ι} {is : List ι} :
    p.schedule (i :: is) = some q ↔ ∃ p₁, p.exec i = some p₁ ∧ p₁.schedule is = some q :=
  Option.bind_eq_some_iff

theorem step_of_exec {R : Regime σ ε ι} (hR : ∀ s es, R.allowed s es) {p q : Pool σ ε ι} {i : ι}
    (h : p.exec i = some q) : Step R p q := by
  obtain ⟨ready, effect, log, next, hp, hr, rfl⟩ := exec_eq_some h
  exact Step.exec hp hr (hR _ _)

theorem run_of_schedule {R : Regime σ ε ι} (hR : ∀ s es, R.allowed s es) {is : List ι} :
    ∀ {p q : Pool σ ε ι}, p.schedule is = some q → Run R p q := by
  induction is with
  | nil => intro p q h; rw [← Option.some.inj h]
  | cons i is ih =>
    intro p q h
    obtain ⟨p', hp', hq⟩ := schedule_cons.mp h
    exact Relation.ReflTransGen.head (step_of_exec hR hp') (ih hq)

/-- The same, as long as `ok` finds every step right. -/
def scheduleIf (ok : σ → List ε → Bool) (p : Pool σ ε ι) : List ι → Option (Pool σ ε ι)
  | [] => some p
  | i :: is => (p.exec i).bind fun q =>
      if ok p.shared (q.history.drop p.history.length) then q.scheduleIf ok is else none

theorem run_of_scheduleIf {R : Regime σ ε ι} {ok : σ → List ε → Bool}
    (hok : ∀ s es, ok s es = true → R.allowed s es) {is : List ι} :
    ∀ {p q : Pool σ ε ι}, p.scheduleIf ok is = some q → Run R p q := by
  induction is with
  | nil => intro p q h; rw [← Option.some.inj h]
  | cons i is ih =>
    intro p q h
    obtain ⟨p', hp', hq⟩ := Option.bind_eq_some_iff.mp h
    split at hq
    · next hgood =>
      refine Relation.ReflTransGen.head ?_ (ih hq)
      obtain ⟨ready, effect, log, next, hp, hr, rfl⟩ := exec_eq_some hp'
      rw [List.drop_left] at hgood
      exact Step.exec hp hr (hok _ _ hgood)
    · simp at hq

/-- Client `i` has come to its end. -/
def ended (i : ι) (p : Pool σ ε ι) : Bool :=
  match p.procs i with
  | some (.ret _) => true
  | _ => false

omit [DecidableEq ι] in
theorem procs_of_ended {p : Pool σ ε ι} {i : ι} (h : p.ended i = true) :
    p.procs i = some (.ret ()) := by
  unfold ended at h
  split at h
  · next hp => exact hp
  · cases h

theorem exists_run_of_schedule {R : Regime σ ε ι} (hR : ∀ s es, R.allowed s es)
    {p : Pool σ ε ι} {l : List ι} {P : Pool σ ε ι → Bool}
    (h : (p.schedule l).any P = true) : ∃ q, Run R p q ∧ P q = true := by
  obtain ⟨q, hq, hP⟩ := (Option.any_eq_true ..).mp h
  exact ⟨q, run_of_schedule hR hq, hP⟩

theorem exists_run_of_scheduleIf {R : Regime σ ε ι} {ok : σ → List ε → Bool}
    (hok : ∀ s es, ok s es = true → R.allowed s es) {p : Pool σ ε ι} {l : List ι}
    {P : Pool σ ε ι → Bool} (h : (p.scheduleIf ok l).any P = true) :
    ∃ q, Run R p q ∧ P q = true := by
  obtain ⟨q, hq, hP⟩ := (Option.any_eq_true ..).mp h
  exact ⟨q, run_of_scheduleIf hok hq, hP⟩

section

variable {R : Regime σ ε ι} {C : (σ → σ) → (σ → List ε) → Prop} {p q : Pool σ ε ι}

/-- What is said about all commands of a client stays true of those still to come. -/
theorem Step.proc (hs : Step R p q) {j : ι} (hp : ∀ c, p.procs j = some c → c.Each C) :
    ∀ c, q.procs j = some c → c.Each C := by
  intro c hj
  cases hs with
  | @exec i ready effect log next hpi hready ha =>
    dsimp only at hj
    by_cases hji : j = i
    · subst hji
      rw [Function.update_self] at hj
      rw [← Option.some.inj hj]
      exact (hp _ hpi).2 _
    · rw [Function.update_of_ne hji] at hj
      exact hp c hj
  | @crash i hpi =>
    dsimp only at hj
    by_cases hji : j = i
    · rw [hji, Function.update_self] at hj
      cases hj
    · rw [Function.update_of_ne hji] at hj
      exact hp c hj

theorem Run.proc (hr : Run R p q) {j : ι} (hp : ∀ c, p.procs j = some c → c.Each C) :
    ∀ c, q.procs j = some c → c.Each C := by
  induction hr with
  | refl => exact hp
  | tail _ hs ih => exact hs.proc ih

/-- **What every command and every death keep, every interleaving keeps.** -/
theorem Run.each {I : σ → List ε → Prop} (hr : Run R p q)
    (hI : ∀ effect log s es, C effect log → R.allowed s (log s) → I s es →
      I (effect s) (es ++ log s))
    (hclean : ∀ i s es, I s es → I (R.clean i s) es)
    (hp : ∀ i c, p.procs i = some c → c.Each C) (h : I p.shared p.history) :
    I q.shared q.history := by
  induction hr with
  | refl => exact h
  | tail hrun hs ih =>
    cases hs with
    | exec hpi _ ha => exact hI _ _ _ _ (Run.proc hrun (hp _) _ hpi).1 ha ih
    | crash _ => exact hclean _ _ _ ih

end

end Pool

/-! ## Rely and guarantee -/

/-- What is said about the store and the events so far. -/
abbrev Assertion (σ ε : Type) := σ → List ε → Prop

/-- The common invariant, and what each client's commands may do to the store and log. -/
structure Contract (σ ε ι : Type) where
  inv : Assertion σ ε
  guar : ι → σ → List ε → σ → List ε → Prop

namespace Contract

variable (R : Regime σ ε ι) (K : Contract σ ε ι)

/-- An assertion of client `i` that no other client can falsify. -/
def Stable (i : ι) (B : Assertion σ ε) : Prop :=
  ∀ j, j ≠ i → ∀ s h s' h', K.inv s h → K.inv s' h' → K.guar j s h s' h' → B s h → B s' h'

/-- Client `i` runs `p` from a store where `A` holds: every command keeps the invariant and
`i`'s promise, and `Q` holds of the answer. -/
def Triple (i : ι) : Prog σ ε α → Assertion σ ε → (α → Assertion σ ε) → Prop
  | .ret a, A, Q => ∀ s h, K.inv s h → A s h → Q a s h
  | .cmd ready effect log next, A, Q =>
    ∀ s h, K.inv s h → A s h → ready s = true → R.allowed s (log s) →
      K.inv (effect s) (h ++ log s) ∧ K.guar i s h (effect s) (h ++ log s) ∧
        ∃ B, B (effect s) (h ++ log s) ∧ K.Stable i B ∧ Triple i (next s) B Q

variable {R K} {i : ι}

theorem stable_true : K.Stable i fun _ _ => True :=
  fun _ _ _ _ _ _ _ _ _ _ => trivial

theorem Stable.and {A B : Assertion σ ε} (hA : K.Stable i A) (hB : K.Stable i B) :
    K.Stable i fun s h => A s h ∧ B s h :=
  fun j hj s h s' h' hi hi' hg hs =>
    ⟨hA j hj s h s' h' hi hi' hg hs.1, hB j hj s h s' h' hi hi' hg hs.2⟩

theorem Triple.imp {p : Prog σ ε α} {A A' : Assertion σ ε} {Q Q' : α → Assertion σ ε}
    (h : Triple R K i p A Q) (hA : ∀ s es, K.inv s es → A' s es → A s es)
    (hQ : ∀ a s es, Q a s es → Q' a s es) : Triple R K i p A' Q' := by
  induction p generalizing A A' with
  | ret a => exact fun s es hi hs => hQ a s es (h s es hi (hA s es hi hs))
  | cmd ready effect log next ih =>
    intro s es hi hs hr ha
    obtain ⟨hinv, hg, B, hB, hst, hn⟩ := h s es hi (hA s es hi hs) hr ha
    exact ⟨hinv, hg, B, hB, hst, ih s hn fun _ _ _ h => h⟩

/-- What is known for sure may be used. -/
theorem triple_of_prop {P : Prop} {p : Prog σ ε α} {Q : α → Assertion σ ε}
    (h : P → Triple R K i p (fun _ _ => True) Q) : Triple R K i p (fun _ _ => P) Q := by
  cases p with
  | ret a => exact fun s es hi hP => h hP s es hi trivial
  | cmd ready effect log next => exact fun s es hi hP => h hP s es hi trivial

theorem triple_of_and {P : Prop} {p : Prog σ ε α} {A : Assertion σ ε} {Q : α → Assertion σ ε}
    (h : P → Triple R K i p A Q) : Triple R K i p (fun s es => P ∧ A s es) Q := by
  cases p with
  | ret a => exact fun s es hi hA => h hA.1 s es hi hA.2
  | cmd ready effect log next => exact fun s es hi hA => h hA.1 s es hi hA.2

theorem triple_of_exists {γ : Type} {p : Prog σ ε α} {A : γ → Assertion σ ε}
    {Q : α → Assertion σ ε} (h : ∀ x, Triple R K i p (A x) Q) :
    Triple R K i p (fun s es => ∃ x, A x s es) Q := by
  cases p with
  | ret a => exact fun s es hi ⟨x, hA⟩ => h x s es hi hA
  | cmd ready effect log next => exact fun s es hi ⟨x, hA⟩ => h x s es hi hA

/-- What is known of the answer in any case may be added. -/
theorem Triple.answers {P : α → Prop} {p : Prog σ ε α} {A : Assertion σ ε}
    {Q : α → Assertion σ ε} (h : Triple R K i p A Q) (hp : p.Answers P) :
    Triple R K i p A fun a s es => P a ∧ Q a s es := by
  induction p generalizing A with
  | ret a => exact fun s es hi hA => ⟨hp, h s es hi hA⟩
  | cmd ready effect log next ih =>
    intro s es hi hs hr ha
    obtain ⟨hinv, hg, B, hB, hst, hn⟩ := h s es hi hs hr ha
    exact ⟨hinv, hg, B, hB, hst, ih s hn (hp s)⟩

theorem triple_pure {a : α} {A : Assertion σ ε} {Q : α → Assertion σ ε}
    (h : ∀ s es, K.inv s es → A s es → Q a s es) :
    Triple R K i (pure a : Prog σ ε α) A Q := h

/-- One command, with an assertion about the answer that the others keep. -/
theorem triple_await {ready : σ → Bool} {log : σ → List ε} {reply : σ → β} {effect : σ → σ}
    {A : Assertion σ ε} {Q : β → Assertion σ ε}
    (h : ∀ s es, K.inv s es → A s es → ready s = true → R.allowed s (log s) →
      K.inv (effect s) (es ++ log s) ∧ K.guar i s es (effect s) (es ++ log s) ∧
        Q (reply s) (effect s) (es ++ log s))
    (hQ : ∀ b, K.Stable i (Q b)) : Triple R K i (Prog.await ready log reply effect) A Q := by
  intro s es hi hs hr ha
  obtain ⟨hinv, hg, hq⟩ := h s es hi hs hr ha
  exact ⟨hinv, hg, Q (reply s), hq, hQ _, fun _ _ _ h => h⟩

theorem triple_callLog {log : σ → List ε} {reply : σ → β} {effect : σ → σ}
    {A : Assertion σ ε} {Q : β → Assertion σ ε}
    (h : ∀ s es, K.inv s es → A s es → R.allowed s (log s) →
      K.inv (effect s) (es ++ log s) ∧ K.guar i s es (effect s) (es ++ log s) ∧
        Q (reply s) (effect s) (es ++ log s))
    (hQ : ∀ b, K.Stable i (Q b)) : Triple R K i (Prog.callLog log reply effect) A Q := by
  change Triple R K i (Prog.await (fun _ => true) log reply effect) A Q
  exact triple_await (fun s es hi hs _ ha => h s es hi hs ha) hQ

theorem triple_call {reply : σ → β} {effect : σ → σ} {A : Assertion σ ε}
    {Q : β → Assertion σ ε}
    (h : ∀ s es, K.inv s es → A s es →
      K.inv (effect s) es ∧ K.guar i s es (effect s) es ∧ Q (reply s) (effect s) es)
    (hQ : ∀ b, K.Stable i (Q b)) :
    Triple R K i (Prog.call reply effect : Prog σ ε β) A Q := by
  change Triple R K i (Prog.callLog (fun _ => []) reply effect) A Q
  refine triple_callLog (fun s es hi hs _ => ?_) hQ
  rw [List.append_nil]
  exact h s es hi hs

/-- A program all of whose commands keep an assertion. -/
theorem triple_of_each {C : (σ → σ) → (σ → List ε) → Prop} {A : Assertion σ ε}
    (hA : K.Stable i A)
    (h : ∀ effect log, C effect log → ∀ s es, K.inv s es → A s es → R.allowed s (log s) →
      K.inv (effect s) (es ++ log s) ∧ K.guar i s es (effect s) (es ++ log s) ∧
        A (effect s) (es ++ log s)) {p : Prog σ ε α} (hp : p.Each C) :
    Triple R K i p A fun _ => A := by
  induction p with
  | ret a => exact fun _ _ _ ha => ha
  | cmd ready effect log next ih =>
    intro s es hi hs _ ha
    obtain ⟨hinv, hg, hB⟩ := h effect log hp.1 s es hi hs ha
    exact ⟨hinv, hg, A, hB, hA, ih s (hp.2 s)⟩

theorem Triple.bind {p : Prog σ ε α} {f : α → Prog σ ε β} {A : Assertion σ ε}
    {P : α → Assertion σ ε} {Q : β → Assertion σ ε} (hp : Triple R K i p A P)
    (hf : ∀ a, Triple R K i (f a) (P a) Q) : Triple R K i (p >>= f) A Q := by
  change Triple R K i (p.bind f) A Q
  induction p generalizing A with
  | ret a => exact (hf a).imp hp fun _ _ _ h => h
  | cmd ready effect log next ih =>
    intro s es hi hs hr ha
    obtain ⟨hinv, hg, B, hB, hst, hn⟩ := hp s es hi hs hr ha
    exact ⟨hinv, hg, B, hB, hst, ih s hn⟩

/-- What may be cut off anywhere promises nothing at its end. -/
theorem Triple.upTo {p : Prog σ ε Unit} {A : Assertion σ ε} {Q : Unit → Assertion σ ε}
    (h : Triple R K i p A Q) (raises : Option Nat) :
    Triple R K i (Prog.upTo raises p) A fun _ _ _ => True := by
  cases raises with
  | none => exact h.imp (fun _ _ _ h => h) fun _ _ _ _ => trivial
  | some n =>
    change Triple R K i (Prog.first n p) A _
    induction p generalizing A n with
    | ret a => cases n <;> exact fun _ _ _ _ => trivial
    | cmd ready effect log next ih =>
      cases n with
      | zero => exact fun _ _ _ _ => trivial
      | succ n =>
        intro s es hi hs hr ha
        obtain ⟨hinv, hg, B, hB, hst, hn⟩ := h s es hi hs hr ha
        exact ⟨hinv, hg, B, hB, hst, ih s hn n⟩

theorem Triple.ite {c : Prop} [Decidable c] {p q : Prog σ ε α} {A : Assertion σ ε}
    {Q : α → Assertion σ ε} (hp : c → Triple R K i p A Q) (hq : ¬c → Triple R K i q A Q) :
    Triple R K i (if c then p else q) A Q := by
  split
  · next h => exact hp h
  · next h => exact hq h

end Contract

/-! ## Soundness -/

namespace Pool

variable [DecidableEq ι] {R : Regime σ ε ι} {K : Contract σ ε ι} {Q : ι → Assertion σ ε}

/-- The invariant holds and every living client is inside a triple. -/
structure Sound (R : Regime σ ε ι) (K : Contract σ ε ι) (Q : ι → Assertion σ ε)
    (p : Pool σ ε ι) : Prop where
  inv : K.inv p.shared p.history
  client : ∀ i q, p.procs i = some q →
    ∃ A, A p.shared p.history ∧ K.Stable i A ∧ K.Triple R i q A fun _ => Q i

/-- Dying keeps the invariant and the promise of the client that died. -/
def CleanOk (R : Regime σ ε ι) (K : Contract σ ε ι) : Prop :=
  ∀ i s h, K.inv s h → K.inv (R.clean i s) h ∧ K.guar i s h (R.clean i s) h

/-- **A step keeps the pool sound, and is within somebody's promise.** -/
theorem Sound.step {p q : Pool σ ε ι} (hc : CleanOk R K) (h : Sound R K Q p) (hs : Step R p q) :
    Sound R K Q q ∧ ∃ i, K.guar i p.shared p.history q.shared q.history := by
  cases hs with
  | @exec i ready effect log next hp hr ha =>
    obtain ⟨A, hA, -, ht⟩ := h.client i _ hp
    obtain ⟨hinv, hg, B, hB, hst, hn⟩ := ht _ _ h.inv hA hr ha
    refine ⟨⟨hinv, fun j r hj => ?_⟩, i, hg⟩
    dsimp only at hj
    by_cases hji : j = i
    · subst hji
      rw [Function.update_self] at hj
      rw [← Option.some.inj hj]
      exact ⟨B, hB, hst, hn⟩
    · rw [Function.update_of_ne hji] at hj
      obtain ⟨A', hA', hst', ht'⟩ := h.client j r hj
      exact ⟨A', hst' i (Ne.symm hji) _ _ _ _ h.inv hinv hg hA', hst', ht'⟩
  | @crash i hp =>
    obtain ⟨hinv, hg⟩ := hc i _ _ h.inv
    refine ⟨⟨hinv, fun j r hj => ?_⟩, i, hg⟩
    dsimp only at hj
    by_cases hji : j = i
    · subst hji
      simp at hj
    · rw [Function.update_of_ne hji] at hj
      obtain ⟨A', hA', hst', ht'⟩ := h.client j r hj
      exact ⟨A', hst' i (Ne.symm hji) _ _ _ _ h.inv hinv hg hA', hst', ht'⟩

/-- **Every interleaving of sound clients stays sound.** -/
theorem Sound.run {p q : Pool σ ε ι} (hc : CleanOk R K) (h : Sound R K Q p) (hr : Run R p q) :
    Sound R K Q q := by
  induction hr with
  | refl => exact h
  | tail _ hs ih => exact (ih.step hc hs).1

/-- What every promise keeps, every interleaving keeps. -/
theorem Sound.keeps {p q : Pool σ ε ι} {B : Assertion σ ε} (hc : CleanOk R K) (h : Sound R K Q p)
    (hB : ∀ i s es s' es', K.guar i s es s' es' → B s es → B s' es') (hr : Run R p q)
    (hp : B p.shared p.history) : B q.shared q.history := by
  induction hr with
  | refl => exact hp
  | tail hrun hs ih =>
    obtain ⟨-, i, hg⟩ := (h.run hc hrun).step hc hs
    exact hB i _ _ _ _ hg ih

omit [DecidableEq ι] in
/-- A client that ended left its postcondition. -/
theorem Sound.post {p : Pool σ ε ι} (h : Sound R K Q p) {i : ι}
    (hi : p.procs i = some (.ret ())) : Q i p.shared p.history := by
  obtain ⟨A, hA, -, ht⟩ := h.client i _ hi
  exact ht _ _ h.inv hA

end Pool

end Infra
