import Mathlib.Logic.Relation
import Mathlib.Logic.Function.Basic

/-!
# Programs of atomic commands

A client of a shared store is a program whose commands each take effect at once.
Between two commands other clients may act, and the client may die.

* `Prog` — the programs. A command may have to wait (`ready`), changes the store
  (`effect`), may be observed (`log`), and decides from the store it found how to go on.
* `Prog.run` — the program alone, from start to end.
* `Prog.after n` — the store when the client dies after `n` commands.
* `Prog.always` — a property of the store at every command boundary.
* `Prog.Each` — a property of every command, whatever happens in between.
* `Prog.upTo` — a program that an exception may end early.
-/

namespace Infra

/-- A program over a store `σ` that logs events `ε` and returns an `α`. -/
inductive Prog (σ ε α : Type) where
  | ret (a : α)
  | cmd (ready : σ → Bool) (effect : σ → σ) (log : σ → List ε) (next : σ → Prog σ ε α)

namespace Prog

variable {σ τ ε δ α β : Type}

/-! ## Building programs -/

def bind : Prog σ ε α → (α → Prog σ ε β) → Prog σ ε β
  | .ret a, f => f a
  | .cmd ready effect log next, f => .cmd ready effect log fun s => (next s).bind f

instance : Monad (Prog σ ε) where
  pure := .ret
  bind := bind

/-- Sequences may be regrouped. -/
theorem bind_assoc' (p : Prog σ ε α) (f : α → Prog σ ε β) {γ : Type} (g : β → Prog σ ε γ) :
    (p.bind f).bind g = p.bind fun a => (f a).bind g := by
  induction p with
  | ret a => rfl
  | cmd ready effect log next ih => simp only [bind, ih]

theorem bind_ret (p : Prog σ ε α) : p.bind .ret = p := by
  induction p with
  | ret a => rfl
  | cmd ready effect log next ih => simp only [bind, ih]

instance : LawfulMonad (Prog σ ε) :=
  LawfulMonad.mk' (Prog σ ε) bind_ret (fun _ _ => rfl) fun p f g => bind_assoc' p f g

/-- A command that answers `reply` and changes the store by `effect`. -/
def call (reply : σ → β) (effect : σ → σ) : Prog σ ε β :=
  .cmd (fun _ => true) effect (fun _ => []) fun s => .ret (reply s)

/-- A command whose answer nobody reads. -/
def act (effect : σ → σ) : Prog σ ε Unit := call (fun _ => ()) effect

/-- A command that only reads. -/
def query (reply : σ → β) : Prog σ ε β := call reply id

/-- `call`, observed as `log`. -/
def callLog (log : σ → List ε) (reply : σ → β) (effect : σ → σ) : Prog σ ε β :=
  .cmd (fun _ => true) effect log fun s => .ret (reply s)

/-- A command that waits until `ready`. -/
def await (ready : σ → Bool) (log : σ → List ε) (reply : σ → β) (effect : σ → σ) : Prog σ ε β :=
  .cmd ready effect log fun s => .ret (reply s)

/-- `p` when `c` holds. -/
def when (c : Bool) (p : Prog σ ε Unit) : Prog σ ε Unit := if c then p else .ret ()

/-- A program over a part of a larger store, whose events are noted as `note` says. -/
def zoom (get : τ → σ) (set : σ → τ → τ) (note : ε → δ) : Prog σ ε α → Prog τ δ α
  | .ret a => .ret a
  | .cmd ready effect log next =>
    .cmd (fun t => ready (get t)) (fun t => set (effect (get t)) t)
      (fun t => (log (get t)).map note) fun t => zoom get set note (next (get t))

/-- A program over a part of a larger store that reacts to its events as `set` says. -/
def relay (get : τ → σ) (set : σ → List ε → τ → τ) (note : ε → δ) : Prog σ ε α → Prog τ δ α
  | .ret a => .ret a
  | .cmd ready effect log next =>
    .cmd (fun t => ready (get t)) (fun t => set (effect (get t)) (log (get t)) t)
      (fun t => (log (get t)).map note) fun t => relay get set note (next (get t))

/-- The first `n` commands. -/
def first : Nat → Prog σ ε Unit → Prog σ ε Unit
  | n + 1, .cmd ready effect log next => .cmd ready effect log fun s => first n (next s)
  | _, _ => .ret ()

/-- A program that an exception ends after `raises` commands, if at all. -/
def upTo (raises : Option Nat) (p : Prog σ ε Unit) : Prog σ ε Unit :=
  match raises with
  | none => p
  | some n => first n p

/-- A program that starts only while `c` holds. -/
def onlyWhile (c : σ → Bool) : Prog σ ε α → Prog σ ε α
  | .ret a => .ret a
  | .cmd ready effect log next => .cmd (fun s => c s && ready s) effect log next

/-- A part of the store is looked at command by command. -/
theorem zoom_bind {get : τ → σ} {set : σ → τ → τ} {note : ε → δ} (p : Prog σ ε α)
    (f : α → Prog σ ε β) :
    zoom get set note (p >>= f) = zoom get set note p >>= fun a => zoom get set note (f a) := by
  change zoom get set note (p.bind f) = (zoom get set note p).bind fun a => zoom get set note (f a)
  induction p with
  | ret a => rfl
  | cmd ready effect log next ih => simp only [bind, zoom, ih]

/-! ## Running alone -/

/-- The answer and the store when nobody interferes. -/
def run : Prog σ ε α → σ → α × σ
  | .ret a, s => (a, s)
  | .cmd _ effect _ next, s => (next s).run (effect s)

/-- The number of commands of an undisturbed run. -/
def length : Prog σ ε α → σ → Nat
  | .ret _, _ => 0
  | .cmd _ effect _ next, s => (next s).length (effect s) + 1

@[simp] theorem run_ret (a : α) (s : σ) : run (.ret a : Prog σ ε α) s = (a, s) := rfl

@[simp] theorem run_pure (a : α) (s : σ) : run (pure a : Prog σ ε α) s = (a, s) := rfl

@[simp] theorem run_call (reply : σ → β) (effect : σ → σ) (s : σ) :
    run (call reply effect : Prog σ ε β) s = (reply s, effect s) := rfl

@[simp] theorem run_act (effect : σ → σ) (s : σ) :
    run (act effect : Prog σ ε Unit) s = ((), effect s) := rfl

@[simp] theorem run_query (reply : σ → β) (s : σ) :
    run (query reply : Prog σ ε β) s = (reply s, s) := rfl

@[simp] theorem run_callLog (log : σ → List ε) (reply : σ → β) (effect : σ → σ) (s : σ) :
    run (callLog log reply effect) s = (reply s, effect s) := rfl

@[simp] theorem run_when (c : Bool) (p : Prog σ ε Unit) (s : σ) :
    run (when c p) s = if c then run p s else ((), s) := by
  unfold when
  split <;> rfl

theorem run_bind' (p : Prog σ ε α) (f : α → Prog σ ε β) (s : σ) :
    run (p.bind f) s = run (f (run p s).1) (run p s).2 := by
  induction p generalizing s with
  | ret a => rfl
  | cmd ready effect log next ih => exact ih s (effect s)

/-- Undisturbed, the second program starts where the first one ended. -/
@[simp] theorem run_bind (p : Prog σ ε α) (f : α → Prog σ ε β) (s : σ) :
    run (p >>= f) s = run (f (run p s).1) (run p s).2 := run_bind' p f s

@[simp] theorem run_map (f : α → β) (p : Prog σ ε α) (s : σ) :
    run (f <$> p) s = (f (run p s).1, (run p s).2) := run_bind' p (fun a => .ret (f a)) s

/-! ## Dying between commands -/

/-- The store when the client dies after `n` commands (or ends before that). -/
def after : Nat → Prog σ ε α → σ → σ
  | 0, _, s => s
  | _ + 1, .ret _, s => s
  | n + 1, .cmd _ effect _ next, s => after n (next s) (effect s)

/-- `P` holds of the store at every command boundary of an undisturbed run. -/
def always (P : σ → Prop) : Prog σ ε α → σ → Prop
  | .ret _, s => P s
  | .cmd _ effect _ next, s => P s ∧ always P (next s) (effect s)

@[simp] theorem after_zero (p : Prog σ ε α) (s : σ) : after 0 p s = s := by
  cases p <;> rfl

@[simp] theorem after_ret (n : Nat) (a : α) (s : σ) : after n (.ret a : Prog σ ε α) s = s := by
  cases n <;> rfl

/-- The command boundaries are the places to die at. -/
theorem always_iff_after {P : σ → Prop} {p : Prog σ ε α} {s : σ} :
    always P p s ↔ ∀ n, P (after n p s) := by
  induction p generalizing s with
  | ret a => simp [always]
  | cmd ready effect log next ih =>
    simp only [always, ih s]
    constructor
    · rintro ⟨h0, h⟩ n
      cases n with
      | zero => exact h0
      | succ n => exact h n
    · exact fun h => ⟨h 0, fun n => h (n + 1)⟩

/-- Cut off past its end, a program has run whole. -/
theorem after_of_length_le {p : Prog σ ε α} {s : σ} {n : Nat} (h : length p s ≤ n) :
    after n p s = (run p s).2 := by
  induction p generalizing s n with
  | ret a => simp
  | cmd ready effect log next ih =>
    obtain ⟨m, rfl⟩ : ∃ m, n = m + 1 := ⟨n - 1, by simp only [length] at h; omega⟩
    exact ih s (by simp only [length] at h; omega)

/-- A crash in a sequence is a crash in its first part or in what follows it. -/
theorem after_bind (p : Prog σ ε α) (f : α → Prog σ ε β) (s : σ) (n : Nat) :
    after n (p >>= f) s =
      if n < length p s then after n p s
      else after (n - length p s) (f (run p s).1) (run p s).2 := by
  change after n (p.bind f) s = _
  induction p generalizing s n with
  | ret a => simp [bind, length]
  | cmd ready effect log next ih =>
    cases n with
    | zero => simp [length]
    | succ n =>
      simp only [bind, after, ih, length, Nat.add_lt_add_iff_right, Nat.add_sub_add_right, run]

/-- What is made of the answer does not matter to the store. -/
theorem after_map (f : α → β) (p : Prog σ ε α) (s : σ) (n : Nat) :
    after n (f <$> p) s = after n p s := by
  change after n (p >>= fun a => .ret (f a)) s = _
  rw [after_bind]
  split
  · rfl
  · next h =>
    rw [after_ret, after_of_length_le (Nat.le_of_not_lt h)]

/-- The start is a boundary. -/
theorem always_start {P : σ → Prop} {p : Prog σ ε α} {s : σ} (h : always P p s) : P s := by
  cases p with
  | ret a => exact h
  | cmd ready effect log next => exact h.1

/-- The end is one. -/
theorem always_end {P : σ → Prop} {p : Prog σ ε α} {s : σ} (h : always P p s) :
    P (run p s).2 := by
  rw [← after_of_length_le (Nat.le_refl (length p s))]
  exact always_iff_after.mp h _

theorem always_mono {P Q : σ → Prop} (hPQ : ∀ s, P s → Q s) {p : Prog σ ε α} {s : σ}
    (h : always P p s) : always Q p s :=
  always_iff_after.mpr fun n => hPQ _ (always_iff_after.mp h n)

/-- The boundaries of a sequence are those of both parts. -/
theorem always_bind {P : σ → Prop} {p : Prog σ ε α} {f : α → Prog σ ε β} {s : σ} :
    always P (p >>= f) s ↔ always P p s ∧ always P (f (run p s).1) (run p s).2 := by
  change always P (p.bind f) s ↔ _
  induction p generalizing s with
  | ret a => exact ⟨fun h => ⟨always_start h, h⟩, fun h => h.2⟩
  | cmd ready effect log next ih => simp only [bind, always, ih, run, and_assoc]

@[simp] theorem always_pure {P : σ → Prop} {a : α} {s : σ} :
    always P (pure a : Prog σ ε α) s ↔ P s := Iff.rfl

@[simp] theorem always_call {P : σ → Prop} {reply : σ → β} {effect : σ → σ} {s : σ} :
    always P (call reply effect : Prog σ ε β) s ↔ P s ∧ P (effect s) := Iff.rfl

@[simp] theorem always_act {P : σ → Prop} {effect : σ → σ} {s : σ} :
    always P (act effect : Prog σ ε Unit) s ↔ P s ∧ P (effect s) := Iff.rfl

@[simp] theorem always_callLog {P : σ → Prop} {log : σ → List ε} {reply : σ → β}
    {effect : σ → σ} {s : σ} :
    always P (callLog log reply effect) s ↔ P s ∧ P (effect s) := Iff.rfl

@[simp] theorem always_query {P : σ → Prop} {reply : σ → β} {s : σ} :
    always P (query reply : Prog σ ε β) s ↔ P s := and_self_iff

/-! ## What all commands have in common -/

/-- `C` holds of the effect and the log of every command that the program can come to. -/
def Each (C : (σ → σ) → (σ → List ε) → Prop) : Prog σ ε α → Prop
  | .ret _ => True
  | .cmd _ effect log next => C effect log ∧ ∀ s, Each C (next s)

/-- `P` holds of the answer, whatever happens in between. -/
def Answers (P : α → Prop) : Prog σ ε α → Prop
  | .ret a => P a
  | .cmd _ _ _ next => ∀ s, Answers P (next s)

/-- What a program answers, what follows may use. -/
theorem Answers.bind {P : α → Prop} {Q : β → Prop} {p : Prog σ ε α} {f : α → Prog σ ε β}
    (hp : Answers P p) (hf : ∀ a, P a → Answers Q (f a)) : Answers Q (p >>= f) := by
  change Answers Q (p.bind f)
  induction p with
  | ret a => exact hf a hp
  | cmd ready effect log next ih => exact fun s => ih s (hp s)

/-- Whatever a program finds, what follows answers so. -/
theorem Answers.of_bind {P : β → Prop} {p : Prog σ ε α} {f : α → Prog σ ε β}
    (h : Answers P (p >>= f)) (s : σ) : Answers P (f (Prog.run p s).1) := by
  change Answers P (p.bind f) at h
  induction p generalizing s with
  | ret a => exact h
  | cmd ready effect log next ih => exact ih s (effect s) (h s)

theorem Answers.of_map {P : β → Prop} {p : Prog σ ε α} {f : α → β} (h : Answers P (f <$> p)) :
    Answers (fun a => P (f a)) p := by
  induction p with
  | ret a => exact h
  | cmd ready effect log next ih => exact fun s => ih s (h s)

theorem answers_of_forall {P : α → Prop} (h : ∀ a, P a) (p : Prog σ ε α) : Answers P p := by
  induction p with
  | ret a => exact h a
  | cmd ready effect log next ih => exact ih

/-- What holds of all that may follow. -/
theorem answers_bind {P : β → Prop} {p : Prog σ ε α} {f : α → Prog σ ε β}
    (h : ∀ a, Answers P (f a)) : Answers P (p >>= f) :=
  (answers_of_forall (fun _ => trivial) p : Answers (fun _ => True) p).bind fun a _ => h a

/-- An answer may be said less of. -/
theorem Answers.mono {P Q : α → Prop} {p : Prog σ ε α} (hp : Answers P p) (h : ∀ a, P a → Q a) :
    Answers Q p := by
  induction p with
  | ret a => exact h a hp
  | cmd ready effect log next ih => exact fun s => ih s (hp s)

/-- A program answers the same on a part of a larger store. -/
theorem Answers.zoom {P : α → Prop} {get : τ → σ} {set : σ → τ → τ} {note : ε → δ}
    {p : Prog σ ε α} (hp : Answers P p) : Answers P (zoom get set note p) := by
  induction p with
  | ret a => exact hp
  | cmd ready effect log next ih => exact fun t => ih _ (hp _)

/-- What an undisturbed run logs. -/
def trace : Prog σ ε α → σ → List ε
  | .ret _, _ => []
  | .cmd _ effect log next, s => log s ++ trace (next s) (effect s)

/-- The log of a sequence. -/
theorem trace_bind (p : Prog σ ε α) (f : α → Prog σ ε β) (s : σ) :
    trace (p >>= f) s = trace p s ++ trace (f (run p s).1) (run p s).2 := by
  change trace (p.bind f) s = _
  induction p generalizing s with
  | ret a => rfl
  | cmd ready effect log next ih => simp only [bind, trace, run, ih, List.append_assoc]

/-- An undisturbed run is one of the things that may happen. -/
theorem Answers.run {P : α → Prop} {p : Prog σ ε α} (hp : Answers P p) (s : σ) :
    P (Prog.run p s).1 := by
  induction p generalizing s with
  | ret a => exact hp
  | cmd ready effect log next ih => exact ih s (hp s) (effect s)

/-- On its part of the store a program does the same, and nothing else happens. -/
theorem run_zoom_eq {get : τ → σ} {set : σ → τ → τ} {note : ε → δ} (hget : ∀ s t, get (set s t) = s)
    (hset : ∀ t, set (get t) t = t) (hset' : ∀ s s' t, set s (set s' t) = set s t)
    (p : Prog σ ε α) (t : τ) : Prog.run (zoom get set note p) t =
      ((Prog.run p (get t)).1, set (Prog.run p (get t)).2 t) ∧
      trace (zoom get set note p) t = (trace p (get t)).map note := by
  induction p generalizing t with
  | ret a => exact ⟨Prod.ext rfl (hset t).symm, rfl⟩
  | cmd ready effect log next ih =>
    obtain ⟨hrun, htrace⟩ := ih (get t) (set (effect (get t)) t)
    rw [hget, hset'] at hrun
    rw [hget] at htrace
    refine ⟨hrun, ?_⟩
    rw [trace, List.map_append, ← htrace]
    rfl

section

variable {C : (σ → σ) → (σ → List ε) → Prop}

/-- The commands of a sequence are those of its parts. -/
theorem Each.bind {p : Prog σ ε α} {f : α → Prog σ ε β} (hp : Each C p)
    (hf : ∀ a, Each C (f a)) : Each C (p >>= f) := by
  change Each C (p.bind f)
  induction p with
  | ret a => exact hf a
  | cmd ready effect log next ih => exact ⟨hp.1, fun s => ih s (hp.2 s)⟩

/-- A command may be said less of. -/
theorem Each.mono {D : (σ → σ) → (σ → List ε) → Prop} (h : ∀ effect log, C effect log → D effect log)
    {p : Prog σ ε α} (hp : Each C p) : Each D p := by
  induction p with
  | ret a => trivial
  | cmd ready effect log next ih => exact ⟨h effect log hp.1, fun s => ih s (hp.2 s)⟩

theorem Each.map {p : Prog σ ε α} (f : α → β) (hp : Each C p) : Each C (f <$> p) :=
  hp.bind fun _ => trivial

theorem Each.when {c : Bool} {p : Prog σ ε Unit} (hp : Each C p) : Each C (when c p) := by
  unfold Prog.when
  split
  · exact hp
  · trivial

theorem each_pure (a : α) : Each C (pure a : Prog σ ε α) := trivial

/-- What holds of any command at all. -/
theorem each_of_forall (h : ∀ effect log, C effect log) (p : Prog σ ε α) : Each C p := by
  induction p with
  | ret a => trivial
  | cmd ready effect log next ih => exact ⟨h effect log, ih⟩

theorem each_call {reply : σ → β} {effect : σ → σ} (h : C effect fun _ => []) :
    Each C (call reply effect : Prog σ ε β) := ⟨h, fun _ => trivial⟩

theorem each_callLog {log : σ → List ε} {reply : σ → β} {effect : σ → σ} (h : C effect log) :
    Each C (callLog log reply effect) := ⟨h, fun _ => trivial⟩

theorem each_await {ready : σ → Bool} {log : σ → List ε} {reply : σ → β} {effect : σ → σ}
    (h : C effect log) : Each C (await ready log reply effect) := ⟨h, fun _ => trivial⟩

/-- A program that is cut off has no other commands. -/
theorem Each.first {p : Prog σ ε Unit} (hp : Each C p) (n : Nat) : Each C (first n p) := by
  induction p generalizing n with
  | ret a => cases n <;> trivial
  | cmd ready effect log next ih =>
    cases n with
    | zero => trivial
    | succ n => exact ⟨hp.1, fun s => ih s (hp.2 s) n⟩

theorem Each.upTo {p : Prog σ ε Unit} (hp : Each C p) (raises : Option Nat) :
    Each C (upTo raises p) := by
  cases raises with
  | none => exact hp
  | some n => exact hp.first n

/-- The commands on a part of the store, as commands on the whole. -/
theorem Each.zoom {D : (τ → τ) → (τ → List δ) → Prop} {get : τ → σ} {set : σ → τ → τ}
    {note : ε → δ} (h : ∀ effect log, C effect log →
      D (fun t => set (effect (get t)) t) fun t => (log (get t)).map note)
    {p : Prog σ ε α} (hp : Each C p) : Each D (zoom get set note p) := by
  induction p with
  | ret a => trivial
  | cmd ready effect log next ih => exact ⟨h effect log hp.1, fun t => ih _ (hp.2 _)⟩

/-- The same where the larger store reacts to the log. -/
theorem Each.relay {D : (τ → τ) → (τ → List δ) → Prop} {get : τ → σ}
    {set : σ → List ε → τ → τ} {note : ε → δ} (h : ∀ effect log, C effect log →
      D (fun t => set (effect (get t)) (log (get t)) t) fun t => (log (get t)).map note)
    {p : Prog σ ε α} (hp : Each C p) : Each D (relay get set note p) := by
  induction p with
  | ret a => trivial
  | cmd ready effect log next ih => exact ⟨h effect log hp.1, fun t => ih _ (hp.2 _)⟩

/-- What every command keeps, an undisturbed run keeps. -/
theorem Each.run {I : σ → List ε → Prop}
    (hI : ∀ effect log s es, C effect log → I s es → I (effect s) (es ++ log s))
    {p : Prog σ ε α} (hp : Each C p) {s : σ} {e : List ε} (h : I s e) :
    I (Prog.run p s).2 (e ++ trace p s) := by
  induction p generalizing s e with
  | ret a => simpa [trace] using h
  | cmd ready effect log next ih =>
    have hnext := ih s (hp.2 s) (hI effect log s e hp.1 h)
    rwa [List.append_assoc] at hnext

end

end Prog

end Infra
