import Taas.Infra.Pool
import Taas.Infra.Runs

/-!
# The same programs, observed differently

What is observed of a program does not change what it does. A proof can look at a copy of a
program whose commands log something else.

* `Prog.silent` — the program of which nothing is observed. Copies have the same one.
* `Pool.Alike` — pools of copies go the same ways.
* `Pool.advance`, `Pool.nextLog` — an interleaving command by command, and what each logs.
-/

namespace Infra

variable {σ ε ε' δ ι α β : Type}

namespace Prog

/-- The same commands, none of them observed. -/
def silent : Prog σ ε α → Prog σ δ α
  | .ret a => .ret a
  | .cmd ready effect _ next => .cmd ready effect (fun _ => []) fun s => (next s).silent

@[simp] theorem silent_pure (a : α) :
    (pure a : Prog σ ε α).silent = (pure a : Prog σ δ α) := rfl

@[simp] theorem silent_bind (p : Prog σ ε α) (f : α → Prog σ ε β) :
    ((p >>= f).silent : Prog σ δ β) = p.silent >>= fun a => (f a).silent := by
  change (p.bind f).silent = p.silent.bind fun a => (f a).silent
  induction p with
  | ret a => rfl
  | cmd ready effect log next ih => simp only [bind, silent, ih]

@[simp] theorem silent_map (f : α → β) (p : Prog σ ε α) :
    ((f <$> p).silent : Prog σ δ β) = f <$> p.silent := silent_bind p fun a => .ret (f a)

@[simp] theorem silent_callLog (log : σ → List ε) (reply : σ → β) (effect : σ → σ) :
    ((callLog log reply effect).silent : Prog σ δ β) = call reply effect := rfl

@[simp] theorem silent_call (reply : σ → β) (effect : σ → σ) :
    ((call reply effect : Prog σ ε β).silent : Prog σ δ β) = call reply effect := rfl

@[simp] theorem silent_act (effect : σ → σ) :
    ((act effect : Prog σ ε Unit).silent : Prog σ δ Unit) = act effect := rfl

@[simp] theorem silent_query (reply : σ → β) :
    ((query reply : Prog σ ε β).silent : Prog σ δ β) = query reply := rfl

@[simp] theorem silent_when (c : Bool) (p : Prog σ ε Unit) :
    ((when c p).silent : Prog σ δ Unit) = when c p.silent := by
  unfold when
  split <;> rfl

@[simp] theorem silent_silent (p : Prog σ ε α) :
    ((p.silent : Prog σ ε' α).silent : Prog σ δ α) = p.silent := by
  induction p with
  | ret a => rfl
  | cmd ready effect log next ih => simp only [silent, ih]

theorem Each.silent {C : (σ → σ) → (σ → List ε) → Prop} {D : (σ → σ) → (σ → List δ) → Prop}
    (h : ∀ effect log, C effect log → D effect fun _ => []) {p : Prog σ ε α} (hp : p.Each C) :
    (p.silent : Prog σ δ α).Each D := by
  induction p with
  | ret a => trivial
  | cmd ready effect log next ih => exact ⟨h effect log hp.1, fun s => ih s (hp.2 s)⟩

end Prog

namespace Pool

variable [DecidableEq ι]

/-- What the next command of client `i` logs. -/
def nextLog (p : Pool σ ε ι) (i : ι) : List ε :=
  match p.procs i with
  | some (.cmd _ _ log _) => log p.shared
  | _ => []

/-- Client `i` executes its next command, when it can. -/
def advance (p : Pool σ ε ι) (i : ι) : Pool σ ε ι := (p.exec i).getD p

/-- The same store and copies of the same clients. -/
structure Alike (p : Pool σ ε ι) (p' : Pool σ δ ι) : Prop where
  shared : p.shared = p'.shared
  procs : ∀ i, (p.procs i).map Prog.silent =
    (p'.procs i).map (Prog.silent : Prog σ δ Unit → Prog σ Empty Unit)

variable {p q : Pool σ ε ι} {p' : Pool σ δ ι}

theorem advance_of_exec {i : ι} (h : p.exec i = some q) : p.advance i = q := by
  rw [advance, h]
  rfl

theorem obeys_of_scheduleIf {ok : σ → List ε → Bool} {C : σ → List ε → Prop}
    (hok : ∀ s es, ok s es = true → C s es) {is : List ι} :
    ∀ {p q : Pool σ ε ι}, p.scheduleIf ok is = some q →
      Obeys advance (fun p i => C p.shared (p.nextLog i)) p is := by
  induction is with
  | nil => exact fun _ => trivial
  | cons i is ih =>
    intro p q h
    obtain ⟨p₁, hp₁, hq⟩ := Option.bind_eq_some_iff.mp h
    split at hq
    · next hgood =>
      obtain ⟨ready, effect, log, next, hp, -, rfl⟩ := exec_eq_some hp₁
      rw [List.drop_left] at hgood
      have hlog : p.nextLog i = log p.shared := by simp [nextLog, hp]
      refine ⟨?_, ?_⟩
      · show C p.shared (p.nextLog i)
        rw [hlog]
        exact hok _ _ hgood
      · rw [advance_of_exec hp₁]
        exact ih hq
    · cases hq

theorem Alike.exec (h : p.Alike p') {i : ι} (hq : p.exec i = some q) :
    ∃ q', p'.exec i = some q' ∧ q.Alike q' := by
  obtain ⟨ready, effect, log, next, hp, hr, rfl⟩ := exec_eq_some hq
  have hi := h.procs i
  rw [hp] at hi
  obtain ⟨c, hc, hsilent⟩ := Option.map_eq_some_iff.mp hi.symm
  cases c with
  | ret a => cases hsilent
  | cmd ready' effect' log' next' =>
    obtain ⟨rfl, rfl, -, hnext⟩ := Prog.cmd.inj hsilent
    have hexec : p'.exec i = some
        { shared := effect' p'.shared
          procs := Function.update p'.procs i (some (next' p'.shared))
          history := p'.history ++ log' p'.shared } := by
      rw [Pool.exec, hc]
      exact if_pos (h.shared ▸ hr)
    refine ⟨_, hexec, congrArg effect' h.shared, fun j => ?_⟩
    dsimp only
    by_cases hji : j = i
    · subst hji
      rw [Function.update_self, Function.update_self, ← h.shared]
      exact congrArg some (congrFun hnext p.shared).symm
    · rw [Function.update_of_ne hji, Function.update_of_ne hji]
      exact h.procs j

theorem Alike.schedule {is : List ι} :
    ∀ {p q : Pool σ ε ι} {p' : Pool σ δ ι}, p.Alike p' → p.schedule is = some q →
      ∃ q', p'.schedule is = some q' ∧ q.Alike q' := by
  induction is with
  | nil =>
    intro p q p' h hq
    exact ⟨p', rfl, Option.some.inj hq ▸ h⟩
  | cons i is ih =>
    intro p q p' h hq
    obtain ⟨p₁, hp₁, hq⟩ := schedule_cons.mp hq
    obtain ⟨p₁', hp₁', h₁⟩ := h.exec hp₁
    obtain ⟨q', hq', h'⟩ := ih h₁ hq
    exact ⟨q', schedule_cons.mpr ⟨p₁', hp₁', hq'⟩, h'⟩

omit [DecidableEq ι] in
/-- Clients come to their ends as their copies do. -/
theorem Alike.ended (h : p.Alike p') {i : ι} (hi : p.ended i = true) : p'.ended i = true := by
  have hproc := h.procs i
  rw [procs_of_ended hi] at hproc
  obtain ⟨c, hc, hsilent⟩ := Option.map_eq_some_iff.mp hproc.symm
  cases c with
  | ret a => rw [Pool.ended, hc]
  | cmd ready effect log next => cases hsilent

end Pool

end Infra
