import Taas.Infra.Pool

/-!
# What clients owe

A client may bring something into disorder with one command and put it in order with a later
one. In between it owes this.

* `Prog.Owes k` — a command to come puts `k` in order, whatever happens in between.
* `Prog.Minds` — a command that brings `k` into disorder leaves `k` owed.
* `Pool.RunWhere ok` — the interleavings in which nobody dies and each command is executed only
  where `ok` allows it.
* `Pool.tidy_of_run` — when all clients have come to their ends, all is in order.
-/

namespace Infra

variable {σ ε ι κ α β : Type}

namespace Prog

variable {tidy : κ → σ → Prop} {ok : (σ → σ) → σ → Prop} {k : κ}

/-- A command to come puts `k` in order. -/
def Owes (tidy : κ → σ → Prop) (k : κ) : Prog σ ε α → Prop
  | .ret _ => False
  | .cmd _ effect _ next => ∀ s, tidy k (effect s) ∨ Owes tidy k (next s)

/-- What a command brings into disorder is owed after it. -/
def Minds (tidy : κ → σ → Prop) (ok : (σ → σ) → σ → Prop) : Prog σ ε α → Prop
  | .ret _ => True
  | .cmd _ effect _ next => ∀ s, Minds tidy ok (next s) ∧
      (ok effect s → ∀ k, tidy k s → tidy k (effect s) ∨ Owes tidy k (next s))

theorem Owes.bind {p : Prog σ ε α} (h : p.Owes tidy k) (f : α → Prog σ ε β) :
    (p >>= f).Owes tidy k := by
  change Owes tidy k (p.bind f)
  induction p with
  | ret a => exact h.elim
  | cmd ready effect log next ih => exact fun s => (h s).imp_right (ih s)

/-- A command that puts `k` in order. -/
theorem owes_now {effect : σ → σ} (h : ∀ s, tidy k (effect s)) (f : Unit → Prog σ ε β) :
    (act effect >>= f).Owes tidy k := fun s => Or.inl (h s)

theorem owes_later {effect : σ → σ} {f : Unit → Prog σ ε β} (h : (f ()).Owes tidy k) :
    (act effect >>= f).Owes tidy k := fun _ => Or.inr h

theorem Minds.bind {p : Prog σ ε α} {f : α → Prog σ ε β} (hp : p.Minds tidy ok)
    (hf : ∀ a, (f a).Minds tidy ok) : (p >>= f).Minds tidy ok := by
  change Minds tidy ok (p.bind f)
  induction p with
  | ret a => exact hf a
  | cmd ready effect log next ih =>
    exact fun s => ⟨ih s (hp s).1, fun hok k hk => ((hp s).2 hok k hk).imp_right fun h => h.bind f⟩

/-- A command that may leave something owed. -/
theorem minds_act {effect : σ → σ} {f : Unit → Prog σ ε β} (hf : (f ()).Minds tidy ok)
    (h : ∀ s, ok effect s → ∀ k, tidy k s → tidy k (effect s) ∨ (f ()).Owes tidy k) :
    (act effect >>= f).Minds tidy ok := fun s => ⟨hf, h s⟩

/-- A program whose commands bring nothing into disorder. -/
theorem minds_of_each {C : (σ → σ) → (σ → List ε) → Prop}
    (hC : ∀ effect log, C effect log → ∀ s, ok effect s → ∀ k, tidy k s → tidy k (effect s))
    {p : Prog σ ε α} (hp : p.Each C) : p.Minds tidy ok := by
  induction p with
  | ret a => trivial
  | cmd ready effect log next ih =>
    exact fun s => ⟨ih s (hp.2 s), fun hok k hk => Or.inl (hC effect log hp.1 s hok k hk)⟩

end Prog

namespace Pool

variable [DecidableEq ι]

/-- One command of one client, where `ok` allows it. -/
inductive StepWhere (ok : (σ → σ) → σ → Prop) : Pool σ ε ι → Pool σ ε ι → Prop
  | exec {p : Pool σ ε ι} {i : ι} {ready : σ → Bool} {effect : σ → σ} {log : σ → List ε}
      {next : σ → Prog σ ε Unit} (hp : p.procs i = some (.cmd ready effect log next))
      (hr : ready p.shared = true) (hok : ok effect p.shared) :
      StepWhere ok p
        { shared := effect p.shared
          procs := Function.update p.procs i (some (next p.shared))
          history := p.history ++ log p.shared }

abbrev RunWhere (ok : (σ → σ) → σ → Prop) : Pool σ ε ι → Pool σ ε ι → Prop :=
  Relation.ReflTransGen (StepWhere ok)

/-- The interleaving that schedules the clients in the order given, as long as `ok` allows it. -/
def scheduleWhere (ok : (σ → σ) → σ → Bool) (p : Pool σ ε ι) : List ι → Option (Pool σ ε ι)
  | [] => some p
  | i :: is =>
    match p.procs i with
    | some (.cmd ready effect log next) =>
      if ready p.shared && ok effect p.shared then
        scheduleWhere ok
          { shared := effect p.shared
            procs := Function.update p.procs i (some (next p.shared))
            history := p.history ++ log p.shared } is
      else none
    | _ => none

theorem runWhere_of_scheduleWhere {ok : (σ → σ) → σ → Prop} {check : (σ → σ) → σ → Bool}
    (hok : ∀ effect s, check effect s = true → ok effect s) {is : List ι} :
    ∀ {p q : Pool σ ε ι}, p.scheduleWhere check is = some q → RunWhere ok p q := by
  induction is with
  | nil => intro p q h; rw [← Option.some.inj h]
  | cons i is ih =>
    intro p q h
    unfold scheduleWhere at h
    split at h
    · next hp =>
      split at h
      · next hgood =>
        rw [Bool.and_eq_true] at hgood
        exact Relation.ReflTransGen.head (.exec hp hgood.1 (hok _ _ hgood.2)) (ih h)
      · cases h
    · cases h

theorem exists_run_of_scheduleWhere (ok : (σ → σ) → σ → Prop) (check : (σ → σ) → σ → Bool)
    (hok : ∀ effect s, check effect s = true → ok effect s) {p : Pool σ ε ι} {l : List ι}
    {P : Pool σ ε ι → Bool} (h : (p.scheduleWhere check l).any P = true) :
    ∃ q, RunWhere ok p q ∧ P q = true := by
  obtain ⟨q, hq, hP⟩ := (Option.any_eq_true ..).mp h
  exact ⟨q, runWhere_of_scheduleWhere hok hq, hP⟩

variable {tidy : κ → σ → Prop} {ok : (σ → σ) → σ → Prop} {p q : Pool σ ε ι}

/-- Everything is in order or owed by a client, and the clients mind what they do. -/
structure Tended (tidy : κ → σ → Prop) (ok : (σ → σ) → σ → Prop) (p : Pool σ ε ι) : Prop where
  minds : ∀ i c, p.procs i = some c → c.Minds tidy ok
  owed : ∀ k, tidy k p.shared ∨ ∃ i c, p.procs i = some c ∧ c.Owes tidy k

theorem Tended.step (h : p.Tended tidy ok) (hs : StepWhere ok p q) : q.Tended tidy ok := by
  cases hs with
  | @exec i ready effect log next hp hr hok =>
    obtain ⟨hnext, hkeep⟩ := h.minds i _ hp p.shared
    refine ⟨fun j c hj => ?_, fun k => ?_⟩
    · dsimp only at hj
      by_cases hji : j = i
      · rw [hji, Function.update_self] at hj
        exact Option.some.inj hj ▸ hnext
      · rw [Function.update_of_ne hji] at hj
        exact h.minds j c hj
    · dsimp only
      -- after its command client `i` still owes what it owed, or has put it in order
      have hself : tidy k (effect p.shared) ∨ (next p.shared).Owes tidy k →
          tidy k (effect p.shared) ∨
            ∃ j c, Function.update p.procs i (some (next p.shared)) j = some c ∧
              c.Owes tidy k :=
        Or.imp_right fun howes => ⟨i, _, Function.update_self .., howes⟩
      rcases h.owed k with hk | ⟨j, c, hj, howes⟩
      · exact hself (hkeep hok k hk)
      · by_cases hji : j = i
        · subst hji
          obtain rfl := Option.some.inj (hp.symm.trans hj)
          exact hself (howes p.shared)
        · exact Or.inr ⟨j, c, by rw [Function.update_of_ne hji]; exact hj, howes⟩

theorem Tended.run (h : p.Tended tidy ok) (hr : RunWhere ok p q) : q.Tended tidy ok := by
  induction hr with
  | refl => exact h
  | tail _ hs ih => exact ih.step hs

/-- **When all clients have come to their ends, everything is in order.** -/
theorem tidy_of_run (h : p.Tended tidy ok) (hr : RunWhere ok p q) (hend : ∀ i, q.ended i = true)
    (k : κ) : tidy k q.shared := by
  refine ((h.run hr).owed k).resolve_right ?_
  rintro ⟨i, c, hc, howes⟩
  obtain rfl := Option.some.inj ((procs_of_ended (hend i)).symm.trans hc)
  exact howes

end Pool

end Infra
