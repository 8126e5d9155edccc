import Mathlib.Algebra.Order.Ring.Rat
import Taas.Infra.Debts

/-!
# Bells

A worker that found nothing to do waits at a list until somebody pushes a token on it or some
time has passed. Whoever makes work pushes a token afterwards, and sets the list's time to live.

* `Bell` — where the list is in the store, and which commands make work.
* `Bell.timed` — a program with the clock, in which each push sets the time to live.
* `Bell.worker` — round after round: look, work, wait.
* `Prog.Rings` — what a program leaves unannounced.
* `Prog.Attends` — a client that never waits while it has something to announce.
* `Pool.Attended.run` — work that nobody has looked at is on the list, or somebody is about to
  announce it or to look.
* `Bell.Ruled` — what is checked once of all commands around a bell.
* `Bell.fresh_of_run` — the list is dropped only when nobody emptied it for its time to live.
-/

namespace Infra

variable {σ ε ι α β : Type}

/-- A store with a clock, and the time at which the list is dropped. -/
structure Timed (σ : Type) where
  store : σ
  now : ℚ := 0
  expires : Option ℚ := none

/-- What is observed of a bell and of the clients around it. -/
inductive Chime (ε : Type) where
  | note (e : ε)
  /-- There is new work. -/
  | work
  /-- A worker begins to look for work. -/
  | look
  /-- A worker emptied the list. -/
  | drained (time : ℚ)
  /-- The list was dropped at the end of its time to live, with tokens on it. -/
  | lapsed (time : ℚ)
deriving DecidableEq

/-- A list of tokens in a store, and the commands that make work (`work` sees the store before
and after a command, and what it logs). -/
structure Bell (σ ε : Type) where
  tokens : σ → Nat
  put : Nat → σ → σ
  tokens_put : ∀ n s, tokens (put n s) = n
  work : σ → σ → List ε → Bool
  /-- Seconds from a push until the list is dropped. -/
  ttl : ℚ

namespace Bell

variable (b : Bell σ ε)

/-! ## The commands on the list -/

/-- Leave `n` tokens; an empty list is gone, and its time to live with it. -/
def leave (n : Nat) (t : Timed σ) : Timed σ :=
  { t with store := b.put n t.store, expires := if n = 0 then none else t.expires }

/-- `EXPIRE`: of a list that is gone, nothing. -/
def expire (t : Timed σ) : Timed σ :=
  if b.tokens t.store = 0 then t else { t with expires := some (t.now + b.ttl) }

/-- What a command is observed as that takes `s` to `s'`. -/
def chimes (s s' : σ) (log : List ε) : List (Chime ε) :=
  log.map .note ++ if b.work s s' log then [.work] else []

/-- A program in a store with a clock. Each push is followed by an `EXPIRE`. -/
def timed : Prog σ ε α → Prog (Timed σ) (Chime ε) α
  | .ret a => .ret a
  | .cmd ready effect log next =>
    .cmd (fun t => ready t.store) (fun t => { t with store := effect t.store })
      (fun t => b.chimes t.store (effect t.store) (log t.store)) fun t =>
        if b.tokens t.store < b.tokens (effect t.store) then
          .cmd (fun _ => true) b.expire (fun _ => []) fun _ => timed (next t.store)
        else timed (next t.store)

/-- Whether the list is at the end of its time when `d` seconds have passed. -/
def due (d : ℚ) (t : Timed σ) : Bool := t.expires.any fun e => e ≤ t.now + d

/-- `d` seconds pass; the list may be dropped. -/
def elapse (d : ℚ) (t : Timed σ) : Timed σ :=
  if due d t then { b.leave 0 t with now := t.now + d } else { t with now := t.now + d }

def lapses (d : ℚ) (t : Timed σ) : List (Chime ε) :=
  if due d t then [.lapsed (t.now + d)] else []

def pass (d : ℚ) : Prog (Timed σ) (Chime ε) Unit :=
  .callLog (lapses d) (fun _ => ()) (b.elapse d)

/-- The time goes by. -/
def clock : List ℚ → Prog (Timed σ) (Chime ε) Unit
  | [] => pure ()
  | d :: ds => do
    b.pass d
    clock ds

/-- `BLPOP`: wait for a token and take it, or until `timeout` seconds have passed; 0 is to wait
for ever. -/
def blpop (timeout : ℚ) : Prog (Timed σ) (Chime ε) Unit := do
  let start ← .query fun t => t.now
  .await (fun t => 0 < b.tokens t.store || (timeout ≠ 0 && decide (start + timeout ≤ t.now)))
    (fun _ => []) (fun _ => ()) fun t => b.leave (b.tokens t.store - 1) t

/-- `DEL` -/
def delete : Prog (Timed σ) (Chime ε) Unit :=
  .callLog (fun t => [.drained t.now]) (fun _ => ()) (b.leave 0)

/-- Wait for a token or until `timeout`, then drain the backlog. -/
def waitForSignal (timeout : ℚ) : Prog (Timed σ) (Chime ε) Unit := do
  b.blpop timeout
  b.delete

/-- A worker begins to look for work. -/
def look : Prog (Timed σ) (Chime ε) Unit := .callLog (fun _ => [.look]) (fun _ => ()) id

/-- Rounds of a worker: look, do what there is to do, wait. -/
def worker (wait : α → Prog (Timed σ) (Chime ε) Unit) :
    List (Prog (Timed σ) (Chime ε) α) → Prog (Timed σ) (Chime ε) Unit
  | [] => pure ()
  | round :: rounds => do
    look
    let answer ← round
    wait answer
    worker wait rounds

@[simp] theorem tokens_leave (n : Nat) (t : Timed σ) : b.tokens (b.leave n t).store = n :=
  b.tokens_put n t.store

@[simp] theorem store_expire (t : Timed σ) : (b.expire t).store = t.store := by
  unfold expire
  split <;> rfl

@[simp] theorem now_expire (t : Timed σ) : (b.expire t).now = t.now := by
  unfold expire
  split <;> rfl

end Bell

/-! ## What a program leaves unannounced -/

namespace Prog

variable (b : Bell σ ε)

/-- `p` never waits and takes no token. When it starts with unannounced work as `owed` says, it
ends with `Q`. -/
def Rings : Prog σ ε α → Bool → (α → Bool → Prop) → Prop
  | .ret a, owed, Q => Q a owed
  | .cmd ready effect log next, owed, Q => ∀ s, ready s = true ∧
      b.tokens s ≤ b.tokens (effect s) ∧
      Rings (next s) (if b.tokens s < b.tokens (effect s) then false
        else owed || b.work s (effect s) (log s)) Q

variable {b}

theorem Rings.imp {p : Prog σ ε α} {owed : Bool} {Q Q' : α → Bool → Prop} (h : p.Rings b owed Q)
    (hQ : ∀ a o, Q a o → Q' a o) : p.Rings b owed Q' := by
  induction p generalizing owed with
  | ret a => exact hQ a owed h
  | cmd ready effect log next ih => exact fun s => ⟨(h s).1, (h s).2.1, ih s (h s).2.2⟩

theorem Rings.bind {p : Prog σ ε α} {f : α → Prog σ ε β} {owed : Bool} {P : α → Bool → Prop}
    {Q : β → Bool → Prop} (hp : p.Rings b owed P) (hf : ∀ a o, P a o → (f a).Rings b o Q) :
    (p >>= f).Rings b owed Q := by
  change Rings b (p.bind f) owed Q
  induction p generalizing owed with
  | ret a => exact hf a owed hp
  | cmd ready effect log next ih => exact fun s => ⟨(hp s).1, (hp s).2.1, ih s (hp s).2.2⟩

/-- A command that neither makes work nor touches the list. -/
def Hushed (b : Bell σ ε) (effect : σ → σ) (log : σ → List ε) : Prop :=
  ∀ s, b.tokens (effect s) = b.tokens s ∧ b.work s (effect s) (log s) = false

theorem rings_call {reply : σ → β} {effect : σ → σ} {owed : Bool} {Q : β → Bool → Prop}
    (h : Hushed b effect fun _ => []) (hQ : ∀ a, Q a owed) :
    (call reply effect : Prog σ ε β).Rings b owed Q := by
  intro s
  obtain ⟨htok, hwork⟩ := h s
  refine ⟨rfl, htok.ge, ?_⟩
  rw [if_neg (by omega), hwork, Bool.or_false]
  exact hQ (reply s)

/-- A command that may make work. -/
theorem rings_callLog {log : σ → List ε} {reply : σ → β} {effect : σ → σ} {owed : Bool}
    {Q : β → Bool → Prop} (htok : ∀ s, b.tokens (effect s) = b.tokens s)
    (hQ : ∀ s, Q (reply s) (owed || b.work s (effect s) (log s))) :
    (callLog log reply effect).Rings b owed Q := by
  intro s
  refine ⟨rfl, (htok s).ge, ?_⟩
  rw [if_neg (by rw [htok s]; exact lt_irrefl _)]
  exact hQ s

/-- A push announces everything. -/
theorem rings_push {effect : σ → σ} {owed : Bool} {Q : Unit → Bool → Prop}
    (h : ∀ s, b.tokens s < b.tokens (effect s)) (hQ : Q () false) :
    (act effect : Prog σ ε Unit).Rings b owed Q := by
  intro s
  refine ⟨rfl, (h s).le, ?_⟩
  rw [if_pos (h s)]
  exact hQ

theorem Rings.when {c : Bool} {p : Prog σ ε Unit} {owed : Bool} {Q : Unit → Bool → Prop}
    (hp : c = true → p.Rings b owed Q) (hn : c = false → Q () owed) :
    (Prog.when c p).Rings b owed Q := by
  cases c with
  | true => exact hp rfl
  | false => exact hn rfl

/-- A program that leaves no new work unannounced. -/
def Settles (b : Bell σ ε) (p : Prog σ ε α) : Prop :=
  ∀ owed, p.Rings b owed fun _ o => o = true → owed = true

theorem Settles.bind {p : Prog σ ε α} {f : α → Prog σ ε β} (hp : Settles b p)
    (hf : ∀ a, Settles b (f a)) : Settles b (p >>= f) := fun owed =>
  (hp owed).bind fun a o ho => (hf a o).imp fun _ _ h h' => ho (h h')

theorem settles_pure (a : α) : Settles b (pure a : Prog σ ε α) := fun _ h => h

theorem settles_call {reply : σ → β} {effect : σ → σ} (h : Hushed b effect fun _ => []) :
    Settles b (call reply effect : Prog σ ε β) := fun _ => rings_call h fun _ h => h

theorem settles_callLog {log : σ → List ε} {reply : σ → β} {effect : σ → σ}
    (h : Hushed b effect log) : Settles b (callLog log reply effect) := fun owed =>
  rings_callLog (fun s => (h s).1) fun s ho => by rwa [(h s).2, Bool.or_false] at ho

theorem Settles.when {c : Bool} {p : Prog σ ε Unit} (hp : Settles b p) :
    Settles b (Prog.when c p) := fun owed => Rings.when (fun _ => hp owed) fun _ h => h

theorem Settles.map {p : Prog σ ε α} (f : α → β) (hp : Settles b p) : Settles b (f <$> p) :=
  hp.bind fun _ => settles_pure _

end Prog

/-! ## Nobody waits with something to announce -/

/-- Whether there is work that nobody has looked at, after the events `es`. -/
def Chime.unseen (u : Bool) : List (Chime ε) → Bool
  | [] => u
  | .work :: es => unseen true es
  | .look :: es => unseen false es
  | .lapsed _ :: es => unseen false es
  | _ :: es => unseen u es

theorem Chime.unseen_append (u : Bool) (es fs : List (Chime ε)) :
    unseen u (es ++ fs) = unseen (unseen u es) fs := by
  induction es generalizing u with
  | nil => rfl
  | cons e es ih => cases e <;> exact ih _

@[simp] theorem Chime.unseen_notes (u : Bool) (es : List ε) : unseen u (es.map .note) = u := by
  induction es with
  | nil => rfl
  | cons e es ih => exact ih

theorem Bell.unseen_chimes (b : Bell σ ε) (u : Bool) (s s' : σ) (log : List ε) :
    Chime.unseen u (b.chimes s s' log) = (u || b.work s s' log) := by
  unfold chimes
  rw [Chime.unseen_append, Chime.unseen_notes]
  cases b.work s s' log with
  | true => simp [Chime.unseen]
  | false => simp [Chime.unseen]

/-- What is still unseen after a command is on the list or left to the client. -/
def Bell.Covers (b : Bell σ ε) (f f' : Bool) (t t' : Timed σ) (es : List (Chime ε)) : Prop :=
  ∀ u, (u = true → 0 < b.tokens t.store ∨ f = true) → Chime.unseen u es = true →
    0 < b.tokens t'.store ∨ f' = true

namespace Prog

variable (b : Bell σ ε)

/-- Where `f` says so, the client goes on to ring or to look before it waits or ends. It waits
only at the empty list, and ends with `Q`. -/
def Attends : Prog (Timed σ) (Chime ε) α → Bool → (α → Bool → Prop) → Prop
  | .ret a, f, Q => Q a f
  | .cmd ready effect log next, f, Q => ∀ t,
      (ready t = false → f = false ∧ b.tokens t.store = 0) ∧
        ∃ f', b.Covers f f' t (effect t) (log t) ∧ Attends (next t) f' Q

variable {b}

theorem Attends.bind {p : Prog (Timed σ) (Chime ε) α} {g : α → Prog (Timed σ) (Chime ε) β}
    {f : Bool} {P : α → Bool → Prop} {Q : β → Bool → Prop} (hp : p.Attends b f P)
    (hg : ∀ a f, P a f → (g a).Attends b f Q) : (p >>= g).Attends b f Q := by
  change Attends b (p.bind g) f Q
  induction p generalizing f with
  | ret a => exact hg a f hp
  | cmd ready effect log next ih =>
    intro t
    obtain ⟨hr, f', hc, hn⟩ := hp t
    exact ⟨hr, f', hc, ih t hn⟩

theorem Attends.imp {p : Prog (Timed σ) (Chime ε) α} {f : Bool} {Q Q' : α → Bool → Prop}
    (hp : p.Attends b f Q) (hQ : ∀ a f, Q a f → Q' a f) : p.Attends b f Q' := by
  induction p generalizing f with
  | ret a => exact hQ a f hp
  | cmd ready effect log next ih =>
    intro t
    obtain ⟨hr, f', hc, hn⟩ := hp t
    exact ⟨hr, f', hc, ih t hn⟩

/-- A command that never waits. -/
theorem attends_callLog {log : Timed σ → List (Chime ε)} {reply : Timed σ → β}
    {effect : Timed σ → Timed σ} {f f' : Bool} {Q : β → Bool → Prop}
    (hc : ∀ t, b.Covers f f' t (effect t) (log t)) (hQ : ∀ t, Q (reply t) f') :
    (callLog log reply effect).Attends b f Q :=
  fun t => ⟨fun h => (Bool.noConfusion h : _), f', hc t, hQ t⟩

/-- A program that announces its work in a store without a clock does so in one with it. -/
theorem attends_timed {p : Prog σ ε α} {f : Bool} {Q : α → Bool → Prop} (h : p.Rings b f Q) :
    (b.timed p).Attends b f Q := by
  induction p generalizing f with
  | ret a => exact h
  | cmd ready effect log next ih =>
    intro t
    obtain ⟨hr, hle, hn⟩ := h t.store
    refine ⟨fun h => Bool.noConfusion (hr.symm.trans h), ?_⟩
    by_cases hlt : b.tokens t.store < b.tokens (effect t.store)
    · -- a push covers all there is; the `EXPIRE` after it changes no token
      rw [if_pos hlt] at hn
      refine ⟨false, fun _ _ _ => .inl (Nat.zero_lt_of_lt hlt), ?_⟩
      beta_reduce
      rw [if_pos hlt]
      refine fun t' => ⟨fun h => Bool.noConfusion h, false, fun u hu hs => ?_, ih t.store hn⟩
      rw [b.store_expire]
      exact hu hs
    · beta_reduce
      rw [if_neg hlt] at hn ⊢
      refine ⟨_, fun u hu hs => ?_, ih t.store hn⟩
      rw [b.unseen_chimes, Bool.or_eq_true] at hs
      rw [Bool.or_eq_true]
      rcases hs with hs | hs
      · exact (hu hs).imp (fun h => lt_of_lt_of_le h hle) .inl
      · exact .inr (.inr hs)

theorem attends_clock (ds : List ℚ) :
    (b.clock ds : Prog (Timed σ) (Chime ε) Unit).Attends b false fun _ f => f = false := by
  induction ds with
  | nil => rfl
  | cons d ds ih =>
    refine Attends.bind (P := fun _ f => f = false) ?_ fun _ f hf => hf ▸ ih
    refine fun t => ⟨fun h => Bool.noConfusion h, false, fun u hu hs => ?_, rfl⟩
    cases hd : Bell.due d t with
    | true => simp [Bell.lapses, hd, Chime.unseen] at hs
    | false =>
      simp only [Bell.lapses, hd, Bool.false_eq_true, if_false] at hs
      simpa [Bell.elapse, hd] using hu hs

/-- After it was woken, a worker looks before it waits again. -/
theorem attends_waitForSignal (timeout : ℚ) :
    (b.waitForSignal timeout).Attends b false fun _ f => f = true := by
  refine Attends.bind (P := fun _ f => f = true) ?_ fun _ f hf => ?_
  · refine fun t => ⟨fun h => Bool.noConfusion h, false, fun u hu hs => hu hs,
      fun t' => ⟨fun h => ?_, ?_⟩⟩
    · refine ⟨rfl, ?_⟩
      by_contra htok
      simp [Nat.pos_of_ne_zero htok] at h
    · exact ⟨true, fun _ _ _ => .inr rfl, rfl⟩
  · subst hf
    have hcovers : ∀ t, b.Covers true true t (b.leave 0 t) [.drained t.now] :=
      fun _ _ _ _ => .inr rfl
    exact attends_callLog hcovers fun _ => rfl

theorem attends_look {f : Bool} : (Bell.look : Prog (Timed σ) (Chime ε) Unit).Attends b f
    fun _ f => f = false :=
  have hcovers : ∀ t, b.Covers f false t (id t) [.look] := fun t u _ hs => by
    simp [Chime.unseen] at hs
  attends_callLog hcovers fun _ => rfl

theorem attends_worker {wait : α → Prog (Timed σ) (Chime ε) Unit}
    (hwait : ∀ a, (wait a).Attends b false fun _ _ => True)
    {rounds : List (Prog (Timed σ) (Chime ε) α)}
    (h : ∀ round ∈ rounds, round.Attends b false fun _ f => f = false) {f : Bool} :
    (Bell.worker wait rounds).Attends b f fun _ _ => True := by
  induction rounds generalizing f with
  | nil => trivial
  | cons round rounds ih =>
    refine attends_look.bind fun _ f hf => ?_
    subst hf
    refine (h round (List.mem_cons_self ..)).bind fun a f hf => ?_
    subst hf
    exact (hwait a).bind fun _ f _ => ih fun r hr => h r (List.mem_cons_of_mem _ hr)

end Prog

namespace Pool

variable (b : Bell σ ε) {p q : Pool (Timed σ) (Chime ε) ι}

/-- Client `i` waits. -/
def waits (i : ι) (p : Pool σ ε ι) : Bool :=
  match p.procs i with
  | some (.cmd ready _ _ _) => !ready p.shared
  | _ => false

/-- What nobody has looked at is on the list, or a client goes on to announce it or to look. The
clients end with `Q`. -/
def Attended (Q : ι → Bool → Prop) (p : Pool (Timed σ) (Chime ε) ι) : Prop :=
  ∃ f : ι → Bool, (∀ i c, p.procs i = some c → c.Attends b (f i) fun _ => Q i) ∧
    (Chime.unseen false p.history = true →
      0 < b.tokens p.shared.store ∨ ∃ i, (p.procs i).isSome ∧ f i = true)

variable {b} {Q : ι → Bool → Prop} {ok : (Timed σ → Timed σ) → Timed σ → Prop} [DecidableEq ι]

theorem Attended.step (h : p.Attended b Q) (hs : StepWhere ok p q) : q.Attended b Q := by
  obtain ⟨f, hf, hcover⟩ := h
  cases hs with
  | @exec i ready effect log next hp hr hok =>
    obtain ⟨-, f', hc, hn⟩ := hf i _ hp p.shared
    refine ⟨Function.update f i f', fun j c hj => ?_, fun hu => ?_⟩
    · dsimp only at hj
      by_cases hji : j = i
      · subst hji
        rw [Function.update_self] at hj
        rw [Function.update_self, ← Option.some.inj hj]
        exact hn
      · rw [Function.update_of_ne hji] at hj
        rw [Function.update_of_ne hji]
        exact hf j c hj
    · dsimp only at hu ⊢
      rw [Chime.unseen_append] at hu
      by_cases hother : ∃ j, j ≠ i ∧ (p.procs j).isSome ∧ f j = true
      · obtain ⟨j, hji, hj, hfj⟩ := hother
        exact .inr ⟨j, by rwa [Function.update_of_ne hji], by rwa [Function.update_of_ne hji]⟩
      · -- nobody else covers what is unseen: it is on the list, or client `i` has it
        have hself : Chime.unseen false p.history = true →
            0 < b.tokens p.shared.store ∨ f i = true := fun hu =>
          (hcover hu).imp_right fun ⟨j, hj, hfj⟩ => by
            by_cases hji : j = i
            · exact hji ▸ hfj
            · exact absurd ⟨j, hji, hj, hfj⟩ hother
        exact (hc _ hself hu).imp_right fun hf' => ⟨i, by simp, by rwa [Function.update_self]⟩

theorem Attended.run (h : p.Attended b Q) (hr : RunWhere ok p q) : q.Attended b Q := by
  induction hr with
  | refl => exact h
  | tail _ hs ih => exact ih.step hs

omit [DecidableEq ι] in
/-- **When somebody waits and everybody else waits or has ended, there is nothing unseen.** -/
theorem Attended.seen (h : p.Attended b Q) {i : ι} (hi : p.waits i = true)
    (hall : ∀ j, (p.procs j).isSome → p.waits j = true ∨ p.ended j = true ∧ ¬ Q j true) :
    Chime.unseen false p.history = false := by
  obtain ⟨f, hf, hcover⟩ := h
  have hwait : ∀ j, p.waits j = true → f j = false ∧ b.tokens p.shared.store = 0 := by
    intro j hj
    unfold waits at hj
    split at hj
    · next ready effect log next hp =>
      exact (hf j _ hp p.shared).1 (by simpa using hj)
    · cases hj
  by_contra hu
  rcases hcover (by simpa using hu) with htok | ⟨j, hj, hfj⟩
  · exact absurd (hwait i hi).2 htok.ne'
  · rcases hall j hj with hw | ⟨hend, hQ⟩
    · exact Bool.noConfusion (hfj.symm.trans (hwait j hw).1)
    · exact hQ (hfj ▸ hf j _ (procs_of_ended hend))

end Pool

/-- Nobody joins a running pool. -/
theorem Pool.RunWhere.isSome [DecidableEq ι] {p q : Pool σ ε ι} {ok : (σ → σ) → σ → Prop}
    (hr : Pool.RunWhere ok p q) {i : ι} (hi : (q.procs i).isSome) : (p.procs i).isSome := by
  induction hr with
  | refl => exact hi
  | tail _ hs ih =>
    refine ih ?_
    cases hs with
    | @exec j ready effect log next hp hr hok =>
      by_cases hij : i = j
      · rw [hij, hp]
        rfl
      · dsimp only at hi
        rwa [Function.update_of_ne hij] at hi

/-- A run in which nobody dies is a run. -/
theorem Pool.RunWhere.free [DecidableEq ι] {p q : Pool σ ε ι} {ok : (σ → σ) → σ → Prop}
    (hr : Pool.RunWhere ok p q) : Pool.Run .free p q := by
  induction hr with
  | refl => exact .refl
  | tail _ hs ih =>
    cases hs with
    | exec hp hr _ => exact ih.tail (.exec hp hr trivial)

/-- What was announced and is not unseen any more, somebody looked at, or the list lapsed. -/
theorem Chime.exists_of_unseen {u : Bool} {es fs : List (Chime ε)}
    (h : unseen u (es ++ .work :: fs) = false) : .look ∈ fs ∨ ∃ t, .lapsed t ∈ fs := by
  rw [unseen_append] at h
  change unseen true fs = false at h
  induction fs with
  | nil => cases h
  | cons e fs ih =>
    cases e with
    | look => exact .inl (List.mem_cons_self ..)
    | lapsed t => exact .inr ⟨t, List.mem_cons_self ..⟩
    | note _ | work | drained _ =>
      exact (ih h).imp (List.mem_cons_of_mem _) fun ⟨t, ht⟩ => ⟨t, List.mem_cons_of_mem _ ht⟩

/-! ## What all commands have in common -/

/-- What there is to check of `C`, for the commands of everybody around a bell. -/
structure Bell.Ruled (b : Bell σ ε)
    (C : (Timed σ → Timed σ) → (Timed σ → List (Chime ε)) → Prop) : Prop where
  lift : ∀ (effect : σ → σ) (log : σ → List ε), C (fun t => { t with store := effect t.store })
    fun t => b.chimes t.store (effect t.store) (log t.store)
  expire : C b.expire fun _ => []
  elapse : ∀ d, 0 ≤ d → C (b.elapse d) (lapses d)
  read : C id fun _ => []
  take : C (fun t => b.leave (b.tokens t.store - 1) t) fun _ => []
  delete : C (b.leave 0) fun t => [.drained t.now]
  look : C id fun _ => [.look]

namespace Bell.Ruled

variable {b : Bell σ ε} {C : (Timed σ → Timed σ) → (Timed σ → List (Chime ε)) → Prop}
  (h : b.Ruled C)

include h

theorem timed (p : Prog σ ε α) : (b.timed p).Each C := by
  induction p with
  | ret a => trivial
  | cmd ready effect log next ih =>
    refine ⟨h.lift effect log, fun t => ?_⟩
    beta_reduce
    split
    · exact ⟨h.expire, fun _ => ih t.store⟩
    · exact ih t.store

theorem clock {ds : List ℚ} (hds : ∀ d ∈ ds, 0 ≤ d) : (b.clock ds).Each C := by
  induction ds with
  | nil => trivial
  | cons d ds ih =>
    exact Prog.Each.bind (Prog.each_callLog (h.elapse d (hds d (List.mem_cons_self ..)))) fun _ =>
      ih fun d' hd' => hds d' (List.mem_cons_of_mem _ hd')

theorem waitForSignal (timeout : ℚ) : (b.waitForSignal timeout).Each C :=
  Prog.Each.bind (Prog.Each.bind (Prog.each_call h.read) fun _ => Prog.each_await h.take) fun _ =>
    Prog.each_callLog h.delete

theorem worker {wait : α → Prog (Timed σ) (Chime ε) Unit} (hwait : ∀ a, (wait a).Each C)
    {rounds : List (Prog (Timed σ) (Chime ε) α)} (hrounds : ∀ round ∈ rounds, round.Each C) :
    (Bell.worker wait rounds).Each C := by
  induction rounds with
  | nil => trivial
  | cons round rounds ih =>
    refine Prog.Each.bind (Prog.each_callLog h.look) fun _ => ?_
    exact Prog.Each.bind (hrounds round (List.mem_cons_self ..)) fun a =>
      Prog.Each.bind (hwait a) fun _ => ih fun r hr => hrounds r (List.mem_cons_of_mem _ hr)

end Bell.Ruled

/-! ## The time to live -/

/-- `es` are no drains and no lapses. -/
def Chime.timeless (es : List (Chime ε)) : Prop := ∀ t, .drained t ∉ es ∧ .lapsed t ∉ es

/-- Each lapse comes `ttl` seconds after every drain before it. -/
def Bell.LapsesLate (b : Bell σ ε) (es : List (Chime ε)) : Prop :=
  es.Pairwise fun e e' => ∀ d t, e = .drained d → e' = .lapsed t → d + b.ttl ≤ t

/-- The list was not drained since its last `EXPIRE`. -/
structure Bell.Fresh (b : Bell σ ε) (t : Timed σ) (es : List (Chime ε)) : Prop where
  expires : ∀ e, t.expires = some e → ∀ d, .drained d ∈ es → d + b.ttl ≤ e
  past : ∀ d, .drained d ∈ es → d ≤ t.now
  late : b.LapsesLate es

theorem Bell.Fresh.lapsed {b : Bell σ ε} {t : Timed σ} {es fs : List (Chime ε)} {s : ℚ}
    (h : b.Fresh t (es ++ .lapsed s :: fs)) {d : ℚ} (hd : .drained d ∈ es) : d + b.ttl ≤ s :=
  (List.pairwise_append.mp h.late).2.2 _ hd _ (List.mem_cons_self ..) d s rfl rfl

/-- A command that keeps `Bell.Fresh`. -/
def Bell.KeepsFresh (b : Bell σ ε) (effect : Timed σ → Timed σ) (log : Timed σ → List (Chime ε)) :
    Prop := ∀ t es, b.Fresh t es → b.Fresh (effect t) (es ++ log t)

namespace Bell

variable {b : Bell σ ε}

theorem timeless_chimes (s s' : σ) (log : List ε) : Chime.timeless (b.chimes s s' log) := by
  intro t
  unfold chimes
  constructor <;> split <;> simp

theorem LapsesLate.append {es fs : List (Chime ε)} (h : b.LapsesLate es)
    (hfs : Chime.timeless fs) : b.LapsesLate (es ++ fs) := by
  refine List.pairwise_append.mpr ⟨h, ?_, fun e _ e' he' d t _ ht => ?_⟩
  · exact List.pairwise_of_forall_mem_list fun e he e' _ d t hd _ => absurd (hd ▸ he) (hfs d).1
  · exact absurd (ht ▸ he') (hfs t).2

/-- A command that is no drain and no lapse, and sets the time to live when it changes it. -/
theorem keepsFresh_of_timeless {effect : Timed σ → Timed σ} {log : Timed σ → List (Chime ε)}
    (hlog : ∀ t, Chime.timeless (log t)) (hnow : ∀ t, (effect t).now = t.now)
    (hexp : ∀ t e, (effect t).expires = some e → t.expires = some e ∨ e = t.now + b.ttl) :
    b.KeepsFresh effect log := by
  intro t es h
  have hmem : ∀ d, .drained d ∈ es ++ log t → .drained d ∈ es := fun d hd =>
    (List.mem_append.mp hd).resolve_right (hlog t d).1
  refine ⟨fun e he d hd => ?_, fun d hd => ?_, h.late.append (hlog t)⟩
  · rcases hexp t e he with he | rfl
    · exact h.expires e he d (hmem d hd)
    · exact add_le_add_left (h.past d (hmem d hd)) _
  · rw [hnow]
    exact h.past d (hmem d hd)

theorem expires_leave {n : Nat} {t : Timed σ} {e : ℚ} (h : (b.leave n t).expires = some e) :
    t.expires = some e := by
  unfold leave at h
  split at h
  · cases h
  · exact h

theorem expires_expire {t : Timed σ} {e : ℚ} (h : (b.expire t).expires = some e) :
    t.expires = some e ∨ e = t.now + b.ttl := by
  unfold expire at h
  split at h
  · exact .inl h
  · exact .inr (Option.some.inj h).symm

theorem timeless_nil : Chime.timeless ([] : List (Chime ε)) := fun _ => by simp

/-- Time passes: when the list lapses, its last drain was `ttl` seconds before its end. -/
theorem keepsFresh_pass {d : ℚ} (hd : 0 ≤ d) : b.KeepsFresh (b.elapse d) (lapses d) := by
  intro t es h
  have hpast : ∀ d', .drained d' ∈ es → d' ≤ t.now + d := fun d' hd' =>
    (h.past d' hd').trans (le_add_of_nonneg_right hd)
  unfold elapse lapses
  cases hdue : due d t with
  | false =>
    rw [if_neg Bool.false_ne_true, if_neg Bool.false_ne_true, List.append_nil]
    exact ⟨h.expires, hpast, h.late⟩
  | true =>
    obtain ⟨e, he, hle⟩ := (Option.any_eq_true ..).mp hdue
    have hmem : ∀ d', .drained d' ∈ es ++ [.lapsed (t.now + d)] → .drained d' ∈ es := by simp
    rw [if_pos rfl, if_pos rfl]
    refine ⟨fun e' he' => ?_, fun d' hd' => hpast d' (hmem d' hd'), ?_⟩
    · simp [leave] at he'
    · refine List.pairwise_append.mpr ⟨h.late, List.pairwise_singleton .., ?_⟩
      rintro _ he' _ hl d' t' rfl rfl
      obtain rfl : t' = t.now + d := by simpa using hl
      exact (h.expires e he d' he').trans (of_decide_eq_true hle)

theorem keepsFresh_delete : b.KeepsFresh (b.leave 0) fun t => [.drained t.now] := by
  intro t es h
  refine ⟨fun e he => by simp [leave] at he, fun d hd => ?_, ?_⟩
  · rcases List.mem_append.mp hd with hd | hd
    · exact h.past d hd
    · exact (by simpa using hd : d = t.now).le
  · refine List.pairwise_append.mpr ⟨h.late, List.pairwise_singleton .., ?_⟩
    rintro e _ e' he' d t' - rfl
    simp at he'

theorem ruled_keepsFresh : b.Ruled b.KeepsFresh where
  lift _ _ := keepsFresh_of_timeless (fun _ => timeless_chimes _ _ _) (fun _ => rfl) fun _ _ h => .inl h
  expire := keepsFresh_of_timeless (fun _ => timeless_nil) b.now_expire fun _ _ h => expires_expire h
  elapse _ := keepsFresh_pass
  read := keepsFresh_of_timeless (fun _ => timeless_nil) (fun _ => rfl) fun _ _ h => .inl h
  take := keepsFresh_of_timeless (fun _ => timeless_nil) (fun _ => rfl)
    fun _ _ h => .inl (expires_leave h)
  delete := keepsFresh_delete
  look := keepsFresh_of_timeless (fun _ _ => by simp) (fun _ => rfl) fun _ _ h => .inl h

variable [DecidableEq ι] {p q : Pool (Timed σ) (Chime ε) ι}
  {ok : (Timed σ → Timed σ) → Timed σ → Prop}

/-- **The list is dropped only when nobody emptied it for its time to live.** -/
theorem fresh_of_run (hr : Pool.RunWhere ok p q)
    (hp : ∀ i c, p.procs i = some c → c.Each b.KeepsFresh) (h : b.Fresh p.shared p.history) :
    b.Fresh q.shared q.history :=
  hr.free.each (fun _ _ s es hk _ h => hk s es h) (fun _ _ _ h => h) hp h

end Bell

/-! ## Work and its reasons -/

/-- An event that is a reason to look comes with the notice of work. -/
def Chime.Noticed (reason : ε → Bool) (es : List (Chime ε)) : Prop :=
  ∀ h₁ e h₂, es = h₁ ++ .note e :: h₂ → reason e = true → .work ∈ h₂

namespace Chime

variable {reason : ε → Bool}

theorem Noticed.append {es fs : List (Chime ε)} (hes : Noticed reason es)
    (hfs : Noticed reason fs) : Noticed reason (es ++ fs) := by
  intro h₁ e h₂ h he
  rcases List.append_eq_append_iff.mp h with ⟨g, rfl, hg⟩ | ⟨g, rfl, hg⟩
  · exact hfs g e h₂ hg he
  · cases g with
    | nil => exact hfs [] e h₂ hg.symm he
    | cons c g =>
      obtain ⟨rfl, rfl⟩ := List.cons.inj hg
      exact List.mem_append_left _ (hes h₁ e g rfl he)

theorem noticed_of_noteless {es : List (Chime ε)} (h : ∀ e, .note e ∉ es) : Noticed reason es := by
  rintro h₁ e h₂ rfl -
  exact absurd (by simp) (h e)

theorem noticed_chimes {b : Bell σ ε} (hb : ∀ s s' log, b.work s s' log = log.any reason)
    (s s' : σ) (log : List ε) : Noticed reason (b.chimes s s' log) := by
  intro h₁ e h₂ h he
  unfold Bell.chimes at h
  have hmem : e ∈ log := by
    have : Chime.note e ∈ h₁ ++ .note e :: h₂ := by simp
    rw [← h] at this
    split at this <;> simpa using this
  have hwork : b.work s s' log = true := by
    rw [hb]
    exact List.any_eq_true.mpr ⟨e, hmem, he⟩
  -- the notice is the last event, so it comes after `e`
  rw [if_pos hwork] at h
  rcases List.eq_nil_or_concat h₂ with rfl | ⟨g, c, rfl⟩
  · cases (List.append_inj_right' h rfl)
  · rw [List.concat_eq_append, ← List.cons_append, ← List.append_assoc] at h
    obtain rfl : c = .work := by simpa using (List.append_inj_right' h rfl).symm
    rw [List.concat_eq_append]
    exact List.mem_append_right _ (List.mem_singleton_self _)

theorem ruled_noticed {b : Bell σ ε} (hb : ∀ s s' log, b.work s s' log = log.any reason) :
    b.Ruled fun _ log => ∀ t, Noticed reason (log t) where
  lift effect log t := noticed_chimes hb _ _ _
  expire _ := noticed_of_noteless fun _ => by simp
  elapse d _ t := noticed_of_noteless fun e => by
    unfold Bell.lapses
    split <;> simp
  read _ := noticed_of_noteless fun _ => by simp
  take _ := noticed_of_noteless fun _ => by simp
  delete _ := noticed_of_noteless fun _ => by simp
  look _ := noticed_of_noteless fun _ => by simp

theorem noticed_of_run [DecidableEq ι] {p q : Pool (Timed σ) (Chime ε) ι}
    {ok : (Timed σ → Timed σ) → Timed σ → Prop} (hr : Pool.RunWhere ok p q)
    (hp : ∀ i c, p.procs i = some c → c.Each fun _ log => ∀ t, Noticed reason (log t))
    (h : Noticed reason p.history) : Noticed reason q.history :=
  hr.free.each (I := fun _ es => Noticed reason es) (fun _ _ s _ hk _ hes => hes.append (hk s))
    (fun _ _ _ h => h) hp h

end Chime

end Infra
